import LintRunner.Text.Utf8
import Mathlib.Data.List.Basic

/-! Strict reading undoes writing: it takes in exactly the bytes that some characters are written as,
and gives those characters. -/

namespace LintRunner.Text

variable {b lo hi : UInt8} {n : Nat} {c : Char} {tails rest more : List UInt8}

/-- Bytes within limits, of which the first has its own. -/
def Tails (lo hi : UInt8) : List UInt8 → Prop
  | [] => True
  | b :: rest => lo ≤ b ∧ b ≤ hi ∧ Tails 0x80 0xbf rest

def IsTail (b : UInt8) : Prop := 0x80 ≤ b.toNat ∧ b.toNat ≤ 0xbf

/-- A first byte with the bytes that it asks for. The first of these is held to closer limits where
the character would fit into fewer bytes, where it would be half of a surrogate pair, or where it
would be beyond the last. -/
inductive Sequence : UInt8 → List UInt8 → Prop
  | one {b : UInt8} (hb : b.toNat ≤ 0x7f) : Sequence b []
  | two {b b₁ : UInt8} (hb : 0xc2 ≤ b.toNat ∧ b.toNat ≤ 0xdf) (h₁ : IsTail b₁) : Sequence b [b₁]
  | three {b b₁ b₂ : UInt8} (hb : 0xe0 ≤ b.toNat ∧ b.toNat ≤ 0xef) (h₁ : IsTail b₁) (h₂ : IsTail b₂)
      (hlong : b.toNat = 0xe0 → 0xa0 ≤ b₁.toNat) (hhalf : b.toNat = 0xed → b₁.toNat ≤ 0x9f) :
      Sequence b [b₁, b₂]
  | four {b b₁ b₂ b₃ : UInt8} (hb : 0xf0 ≤ b.toNat ∧ b.toNat ≤ 0xf4) (h₁ : IsTail b₁) (h₂ : IsTail b₂)
      (h₃ : IsTail b₃) (hlong : b.toNat = 0xf0 → 0x90 ≤ b₁.toNat)
      (hlast : b.toNat = 0xf4 → b₁.toNat ≤ 0x8f) : Sequence b [b₁, b₂, b₃]

theorem tailsAfter_eq (b : UInt8) : tailsAfter b =
    if b.toNat ≤ 0x7f then some (0, 0x80, 0xbf)
    else if 0xc2 ≤ b.toNat ∧ b.toNat ≤ 0xdf then some (1, 0x80, 0xbf)
    else if 0xe0 ≤ b.toNat ∧ b.toNat ≤ 0xef then
      some (2, if b.toNat = 0xe0 then 0xa0 else 0x80, if b.toNat = 0xed then 0x9f else 0xbf)
    else if 0xf0 ≤ b.toNat ∧ b.toNat ≤ 0xf4 then
      some (3, if b.toNat = 0xf0 then 0x90 else 0x80, if b.toNat = 0xf4 then 0x8f else 0xbf)
    else none := by
  simp only [tailsAfter, UInt8.le_iff_toNat_le, UInt8.lt_iff_toNat_lt, ← UInt8.toNat_inj,
    UInt8.reduceToNat]
  grind

theorem sequence_of_tails (hafter : tailsAfter b = some (tails.length, lo, hi))
    (hwithin : Tails lo hi tails) : Sequence b tails := by
  rw [tailsAfter_eq] at hafter
  split at hafter
  · next hb =>
    cases tails with
    | nil => exact .one hb
    | cons b₁ rest => simp at hafter
  split at hafter
  · next hb =>
    obtain ⟨hn, rfl, rfl⟩ : 1 = tails.length ∧ _ = lo ∧ _ = hi := by simpa using hafter
    obtain ⟨b₁, rfl⟩ := List.length_eq_one_iff.1 hn.symm
    exact .two hb ⟨UInt8.le_iff_toNat_le.1 hwithin.1, UInt8.le_iff_toNat_le.1 hwithin.2.1⟩
  split at hafter
  · next hb =>
    obtain ⟨hn, rfl, rfl⟩ : 2 = tails.length ∧ _ = lo ∧ _ = hi := by simpa using hafter
    obtain ⟨b₁, b₂, rfl⟩ := List.length_eq_two.1 hn.symm
    simp only [Tails, UInt8.le_iff_toNat_le, apply_ite UInt8.toNat, UInt8.reduceToNat] at hwithin
    obtain ⟨hlo, hhi, hlo', hhi', -⟩ := hwithin
    refine .three hb ⟨?_, ?_⟩ ⟨hlo', hhi'⟩ ?_ ?_ <;> grind
  split at hafter
  · next hb =>
    obtain ⟨hn, rfl, rfl⟩ : 3 = tails.length ∧ _ = lo ∧ _ = hi := by simpa using hafter
    obtain ⟨b₁, b₂, b₃, rfl⟩ := List.length_eq_three.1 hn.symm
    simp only [Tails, UInt8.le_iff_toNat_le, apply_ite UInt8.toNat, UInt8.reduceToNat] at hwithin
    obtain ⟨hlo, hhi, hlo', hhi', hlo'', hhi'', -⟩ := hwithin
    refine .four hb ⟨?_, ?_⟩ ⟨hlo', hhi'⟩ ⟨hlo'', hhi''⟩ ?_ ?_ <;> grind
  · cases hafter

theorem Sequence.within (hs : Sequence b tails) :
    ∃ lo hi, tailsAfter b = some (tails.length, lo, hi) ∧ Tails lo hi tails := by
  rw [tailsAfter_eq]
  cases hs with
  | one hb => exact ⟨_, _, if_pos hb, trivial⟩
  | two hb h₁ =>
    rw [if_neg (by omega), if_pos hb]
    exact ⟨_, _, rfl, UInt8.le_iff_toNat_le.2 h₁.1, UInt8.le_iff_toNat_le.2 h₁.2, trivial⟩
  | three hb h₁ h₂ hlong hhalf =>
    rw [if_neg (by omega), if_neg (by omega), if_pos hb]
    refine ⟨_, _, rfl, ?_⟩
    simp only [Tails, UInt8.le_iff_toNat_le, apply_ite UInt8.toNat, UInt8.reduceToNat]
    refine ⟨?_, ?_, h₂.1, h₂.2, trivial⟩ <;> grind [IsTail]
  | four hb h₁ h₂ h₃ hlong hlast =>
    rw [if_neg (by omega), if_neg (by omega), if_neg (by omega), if_pos hb]
    refine ⟨_, _, rfl, ?_⟩
    simp only [Tails, UInt8.le_iff_toNat_le, apply_ite UInt8.toNat, UInt8.reduceToNat]
    refine ⟨?_, ?_, h₂.1, h₂.2, h₃.1, h₃.2, trivial⟩ <;> grind [IsTail]

theorem takeTails_of_tails (ht : Tails lo hi tails) (more : List UInt8) :
    takeTails tails.length lo hi (tails ++ more) = tails := by
  induction tails generalizing lo hi with
  | nil => rfl
  | cons b rest ih =>
    obtain ⟨hlo, hhi, hrest⟩ := ht
    simp [takeTails, hlo, hhi, ih hrest]

theorem tails_of_takeTails (hn : (takeTails n lo hi rest).length = n) :
    (∃ more, rest = takeTails n lo hi rest ++ more) ∧ Tails lo hi (takeTails n lo hi rest) := by
  induction n generalizing lo hi rest with
  | zero => exact ⟨⟨rest, rfl⟩, trivial⟩
  | succ n ih =>
    cases rest with
    | nil => cases hn
    | cons b rest =>
      unfold takeTails at hn ⊢
      split at hn
      · next hb =>
        obtain ⟨hlo, hhi⟩ := (Bool.and_eq_true _ _).mp hb
        obtain ⟨⟨more, hmore⟩, htails⟩ := ih (by simpa using hn)
        rw [if_pos hb]
        exact ⟨⟨more, congrArg (b :: ·) hmore⟩, of_decide_eq_true hlo, of_decide_eq_true hhi, htails⟩
      · cases hn

/-- What is read at the front is a sequence. -/
theorem decodeFront_eq_some_iff : decodeFront b rest = (some c, n) ↔
    ∃ tails more, rest = tails ++ more ∧ tails.length = n ∧ Sequence b tails ∧
      Char.ofNat (codePoint tails.length b tails) = c := by
  unfold decodeFront
  constructor
  · intro hfront
    split at hfront
    · cases hfront
    · next m lo hi hafter =>
      dsimp only at hfront
      split at hfront
      · next hlength =>
        cases hfront
        obtain ⟨⟨more, hmore⟩, hwithin⟩ := tails_of_takeTails hlength
        exact ⟨_, more, hmore, hlength, sequence_of_tails (by rw [hafter, hlength]) hwithin,
          by rw [hlength]⟩
      · cases hfront
  · rintro ⟨tails, more, rfl, rfl, hs, rfl⟩
    obtain ⟨lo, hi, hafter, hwithin⟩ := hs.within
    rw [hafter]
    dsimp only
    rw [takeTails_of_tails hwithin, if_pos rfl]

theorem utf8EncodeChar_ofNat {v : Nat} (hv : v.isValidChar) : String.utf8EncodeChar (Char.ofNat v) =
    if v ≤ 0x7f then [UInt8.ofNat v]
    else if v ≤ 0x7ff then [UInt8.ofNat (v / 64 % 32 + 192), UInt8.ofNat (v % 64 + 128)]
    else if v ≤ 0xffff then
      [UInt8.ofNat (v / 4096 % 16 + 224), UInt8.ofNat (v / 64 % 64 + 128), UInt8.ofNat (v % 64 + 128)]
    else
      [UInt8.ofNat (v / 262144 % 8 + 240), UInt8.ofNat (v / 4096 % 64 + 128),
        UInt8.ofNat (v / 64 % 64 + 128), UInt8.ofNat (v % 64 + 128)] := by
  have hval : (Char.ofNat v).val.toNat = v := by
    rw [Char.ofNat, dif_pos hv]
    rfl
  rw [String.utf8EncodeChar, hval]

theorem ofNat_eq_iff {v : Nat} : UInt8.ofNat v = b ↔ v % 256 = b.toNat := by
  rw [← UInt8.toNat_inj, UInt8.toNat_ofNat']

/-- Written out, the character is what it was read from. -/
theorem Sequence.encode (hs : Sequence b tails) :
    String.utf8EncodeChar (Char.ofNat (codePoint tails.length b tails)) = b :: tails := by
  -- the bits that a byte adds, told apart from those that mark it
  have hbits {b : UInt8} (hb : IsTail b) : ∃ x < 64, b.toNat % 64 = x ∧ b.toNat = x + 128 := by
    obtain ⟨hlo, hhi⟩ := hb
    exact ⟨b.toNat % 64, by omega, rfl, by omega⟩
  cases hs with
  | one hb =>
    have hv : codePoint 0 b [] = b.toNat := rfl
    have hvalid : b.toNat.isValidChar := .inl (by omega)
    rw [List.length_nil, hv, utf8EncodeChar_ofNat hvalid, if_pos hb, List.cons.injEq, ofNat_eq_iff]
    exact ⟨by omega, rfl⟩
  | @two b₁ hb h₁ =>
    obtain ⟨y, hy, hv₁, hb₁⟩ := hbits h₁
    obtain ⟨x, hx, hv₀, hb₀⟩ : ∃ x < 32, b.toNat % 32 = x ∧ b.toNat = x + 192 :=
      ⟨b.toNat % 32, by omega, rfl, by omega⟩
    have hv : codePoint 1 b [b₁] = x * 64 + y := by rw [← hv₀, ← hv₁]; rfl
    have hvalid : (x * 64 + y).isValidChar := .inl (by omega)
    rw [List.length_singleton, hv, utf8EncodeChar_ofNat hvalid, if_neg (by omega), if_pos (by omega)]
    simp only [List.cons.injEq, ofNat_eq_iff, and_true]
    omega
  | @three b₁ b₂ hb h₁ h₂ hlong hhalf =>
    obtain ⟨y, hy, hv₁, hb₁⟩ := hbits h₁
    obtain ⟨z, hz, hv₂, hb₂⟩ := hbits h₂
    obtain ⟨x, hx, hv₀, hb₀⟩ : ∃ x < 16, b.toNat % 16 = x ∧ b.toNat = x + 224 :=
      ⟨b.toNat % 16, by omega, rfl, by omega⟩
    have hv : codePoint 2 b [b₁, b₂] = (x * 64 + y) * 64 + z := by rw [← hv₀, ← hv₁, ← hv₂]; rfl
    have hvalid : ((x * 64 + y) * 64 + z).isValidChar := by
      unfold Nat.isValidChar
      omega
    change String.utf8EncodeChar (Char.ofNat (codePoint 2 b [b₁, b₂])) = _
    rw [hv, utf8EncodeChar_ofNat hvalid, if_neg (by omega), if_neg (by omega), if_pos (by omega)]
    simp only [List.cons.injEq, ofNat_eq_iff, and_true]
    omega
  | @four b₁ b₂ b₃ hb h₁ h₂ h₃ hlong hlast =>
    obtain ⟨y, hy, hv₁, hb₁⟩ := hbits h₁
    obtain ⟨z, hz, hv₂, hb₂⟩ := hbits h₂
    obtain ⟨u, hu, hv₃, hb₃⟩ := hbits h₃
    obtain ⟨x, hx, hv₀, hb₀⟩ : ∃ x < 8, b.toNat % 8 = x ∧ b.toNat = x + 240 :=
      ⟨b.toNat % 8, by omega, rfl, by omega⟩
    have hv : codePoint 3 b [b₁, b₂, b₃] = ((x * 64 + y) * 64 + z) * 64 + u := by
      rw [← hv₀, ← hv₁, ← hv₂, ← hv₃]
      rfl
    have hvalid : (((x * 64 + y) * 64 + z) * 64 + u).isValidChar := by
      unfold Nat.isValidChar
      omega
    change String.utf8EncodeChar (Char.ofNat (codePoint 3 b [b₁, b₂, b₃])) = _
    rw [hv, utf8EncodeChar_ofNat hvalid, if_neg (by omega), if_neg (by omega), if_neg (by omega)]
    simp only [List.cons.injEq, ofNat_eq_iff, and_true]
    omega

theorem toNat_ofNat {v : Nat} (hv : v < 256) : (UInt8.ofNat v).toNat = v := by
  rw [UInt8.toNat_ofNat', Nat.mod_eq_of_lt hv]

/-- What a character is written as is a sequence. -/
theorem sequence_encode (c : Char) : ∃ b tails, String.utf8EncodeChar c = b :: tails ∧ Sequence b tails := by
  have hvalid : c.toNat.isValidChar := c.valid
  have hc := utf8EncodeChar_ofNat hvalid
  rw [Char.ofNat_toNat] at hc
  rw [hc]
  unfold Nat.isValidChar at hvalid
  generalize c.toNat = v at hvalid
  have htail (v : Nat) : IsTail (UInt8.ofNat (v % 64 + 128)) := by
    rw [IsTail, toNat_ofNat (by omega)]
    omega
  split
  · exact ⟨_, _, rfl, .one (by rw [toNat_ofNat] <;> omega)⟩
  split
  · exact ⟨_, _, rfl, .two (by rw [toNat_ofNat] <;> omega) (htail _)⟩
  split
  · have hb : (UInt8.ofNat (v / 4096 % 16 + 224)).toNat = v / 4096 % 16 + 224 := toNat_ofNat (by omega)
    have hb₁ : (UInt8.ofNat (v / 64 % 64 + 128)).toNat = v / 64 % 64 + 128 := toNat_ofNat (by omega)
    refine ⟨_, _, rfl, .three ?_ (htail _) (htail _) ?_ ?_⟩
    all_goals omega
  · have hb : (UInt8.ofNat (v / 262144 % 8 + 240)).toNat = v / 262144 % 8 + 240 :=
      toNat_ofNat (by omega)
    have hb₁ : (UInt8.ofNat (v / 4096 % 64 + 128)).toNat = v / 4096 % 64 + 128 :=
      toNat_ofNat (by omega)
    refine ⟨_, _, rfl, .four ?_ (htail _) (htail _) (htail _) ?_ ?_⟩
    all_goals omega

theorem encode_injective : Function.Injective String.utf8EncodeChar := by
  intro c d hcd
  have hone (c : Char) : (String.ofList [c]).toByteArray = (String.utf8EncodeChar c).toByteArray := by
    simp [List.utf8Encode]
  have hlists : String.ofList [c] = String.ofList [d] := by
    rw [← String.toByteArray_inj, hone, hone, hcd]
  exact List.singleton_inj.1 (String.ofList_injective hlists)

theorem decodePieces_encode (c : Char) (more : List UInt8) :
    decodePieces (String.utf8EncodeChar c ++ more) = some c :: decodePieces more := by
  obtain ⟨b, tails, hc, hs⟩ := sequence_encode c
  have hfront : decodeFront b (tails ++ more) = (some c, tails.length) :=
    decodeFront_eq_some_iff.2 ⟨tails, more, rfl, rfl, hs, encode_injective (hs.encode.trans hc.symm)⟩
  rw [hc, List.cons_append, decodePieces, hfront]
  dsimp only
  rw [List.drop_left]

theorem decodePieces_flatMap (cs : List Char) :
    decodePieces (cs.flatMap String.utf8EncodeChar) = cs.map some := by
  induction cs with
  | nil => rw [List.flatMap_nil, decodePieces, List.map_nil]
  | cons c cs ih => rw [List.flatMap_cons, decodePieces_encode, ih, List.map_cons]

theorem flatMap_of_decodePieces {bytes : List UInt8} {cs : List Char}
    (hcs : decodePieces bytes = cs.map some) : bytes = cs.flatMap String.utf8EncodeChar := by
  induction cs generalizing bytes with
  | nil =>
    cases bytes with
    | nil => rfl
    | cons b rest =>
      rw [decodePieces] at hcs
      cases hcs
  | cons c cs ih =>
    cases bytes with
    | nil =>
      rw [decodePieces] at hcs
      cases hcs
    | cons b rest =>
      rw [decodePieces] at hcs
      rcases hfront : decodeFront b rest with ⟨x, used⟩
      rw [hfront] at hcs
      obtain ⟨rfl, hrest⟩ := List.cons.inj hcs
      obtain ⟨tails, more, rfl, rfl, hs, hc⟩ := decodeFront_eq_some_iff.1 hfront
      rw [List.drop_left] at hrest
      rw [List.flatMap_cons, ← ih hrest, ← hc, hs.encode, List.cons_append]

theorem mapM_id_eq_some_iff {α : Type} {xs : List (Option α)} {as : List α} :
    xs.mapM id = some as ↔ xs = as.map some := by
  induction xs generalizing as with
  | nil => cases as <;> simp
  | cons x xs ih =>
    rw [List.mapM_cons]
    cases x with
    | none => cases as <;> simp
    | some a => cases as <;> simp [Option.bind_eq_some_iff, ih, and_comm]

theorem toList_eq (bytes : ByteArray) : bytes.toList = bytes.data.toList := by
  have hloop (i : Nat) (r : List UInt8) :
      ByteArray.toList.loop bytes i r = r.reverse ++ bytes.data.toList.drop i := by
    fun_induction ByteArray.toList.loop bytes i r with
    | case1 i r hi ih =>
      have hget : bytes.get! i = bytes.data.toList[i] := by
        simp [ByteArray.get!, getElem!_pos bytes.data i hi]
      rw [ih, List.drop_eq_getElem_cons (show i < bytes.data.toList.length from hi), hget]
      simp
    | case2 i r hi =>
      rw [List.drop_eq_nil_of_le (show bytes.data.toList.length ≤ i from Nat.le_of_not_lt hi),
        List.append_nil]
  exact hloop 0 []

/-- Exactly the bytes that the characters are written as are read as them. -/
theorem decodeStrict_eq_some_iff {bytes : ByteArray} {cs : List Char} :
    decodeStrict bytes = some cs ↔ bytes = cs.utf8Encode := by
  rw [decodeStrict, mapM_id_eq_some_iff, toList_eq]
  constructor
  · intro hcs
    apply ByteArray.ext
    rw [List.utf8Encode, List.data_toByteArray, ← flatMap_of_decodePieces hcs]
  · rintro rfl
    rw [List.utf8Encode, List.data_toByteArray]
    exact decodePieces_flatMap cs

theorem decodeStrict_eq_none_iff {bytes : ByteArray} :
    decodeStrict bytes = none ↔ ¬ bytes.IsValidUTF8 := by
  rw [Option.eq_none_iff_forall_ne_some]
  constructor
  · rintro hnone ⟨cs, hbytes⟩
    exact hnone cs (decodeStrict_eq_some_iff.2 hbytes)
  · intro hvalid cs hcs
    exact hvalid ⟨cs, decodeStrict_eq_some_iff.1 hcs⟩

/-- The characters where each byte stands for one. -/
def ofSmall (bytes : ByteArray) : List Char := bytes.data.toList.map fun b => Char.ofNat b.toNat

theorem utf8EncodeChar_of_small {c : Char} (hsmall : ∀ b ∈ String.utf8EncodeChar c, b.toNat < 128) :
    (String.utf8EncodeChar c).map (fun b => Char.ofNat b.toNat) = [c] := by
  obtain ⟨v, rfl⟩ : ∃ v, c = Char.ofNat v := ⟨c.toNat, (Char.ofNat_toNat c).symm⟩
  have hlead {b : UInt8} {tails : List UInt8} (hb : 128 ≤ b.toNat)
      (hcs : String.utf8EncodeChar (Char.ofNat v) = b :: tails) : False :=
    Nat.not_lt.2 hb (hsmall b (hcs ▸ List.mem_cons_self))
  by_cases hv : (Char.ofNat v).val.toNat ≤ 127
  · have hone : String.utf8EncodeChar (Char.ofNat v) = [UInt8.ofNat (Char.ofNat v).val.toNat] := if_pos hv
    rw [hone, List.map_singleton, toNat_ofNat (by omega)]
    exact congrArg (fun c => [c]) (Char.ofNat_toNat (Char.ofNat v))
  · exfalso
    unfold String.utf8EncodeChar at hlead
    simp only [if_neg hv] at hlead
    split at hlead
    · exact hlead (by rw [toNat_ofNat (by omega)]; omega) rfl
    · split at hlead
      · exact hlead (by rw [toNat_ofNat (by omega)]; omega) rfl
      · exact hlead (by rw [toNat_ofNat (by omega)]; omega) rfl

/-- A text of small bytes has a character for each of them. -/
theorem toList_of_small {s : String} (hsmall : ∀ b ∈ s.toByteArray.data.toList, b.toNat < 128) :
    s.toList = ofSmall s.toByteArray := by
  obtain ⟨cs, rfl⟩ : ∃ cs, s = String.ofList cs := ⟨s.toList, String.ofList_toList.symm⟩
  have hbytes : (String.ofList cs).toByteArray.data.toList = cs.flatMap String.utf8EncodeChar := by
    rw [String.toByteArray_ofList, List.utf8Encode, List.data_toByteArray]
  rw [hbytes] at hsmall
  rw [String.toList_ofList, ofSmall, hbytes]
  clear hbytes
  induction cs with
  | nil => rfl
  | cons c cs ih =>
    rw [List.flatMap_cons] at hsmall ⊢
    rw [List.map_append, utf8EncodeChar_of_small fun b hb => hsmall b (List.mem_append_left _ hb),
      ← ih fun b hb => hsmall b (List.mem_append_right _ hb), List.singleton_append]

end LintRunner.Text
