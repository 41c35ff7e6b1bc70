import LintRunner.FileTree.Resolve
import LintRunner.Proofs.FileTree.Sound
import Mathlib.Data.List.Perm.Subperm

/-! A path that leads somewhere is resolved to the place that it leads to. Resolving follows one link
at a time and remembers where each has led; a link that is still being followed is not met again on a
way that comes to an end, because the rest of that way is shorter than the way itself. -/

namespace LintRunner.FileTree

variable {t : FileTree} {here l l' l'' mid : Location} {names more rest : List String} {name target : String}
  {p : Path} {e : Entry} {n m k fuel : Nat} {opens : List Location} {known : Known}

theorem normal_of_resolve_ok {q : Path} (hq : t.resolve here p = .ok q) :
    ∃ names : List String, q = (Path.mk .root (names.filter Path.isName)).normalize := by
  unfold resolve at hq
  split at hq
  · cases hq
  · dsimp only at hq
    split at hq
    · split at hq
      · cases hq
      · cases hq
        exact ⟨_, rfl⟩
    · cases hq
      exact ⟨_, rfl⟩

theorem of_resolve_ok {q : Path} (hq : t.resolve here p = .ok q) :
    q.anchor = .root ∧ ".." ∉ q.parts := by
  obtain ⟨names, rfl⟩ := normal_of_resolve_ok hq
  exact ⟨rfl, Path.normalize_no_dots rfl⟩

/-- Nothing is left in the path that stands for no step. -/
theorem not_dot_of_resolve_ok {q : Path} (hq : t.resolve here p = .ok q) : "." ∉ q.parts := by
  obtain ⟨names, rfl⟩ := normal_of_resolve_ok hq
  intro hmem
  rcases Path.mem_normalize hmem with hname | hup
  · cases (List.mem_filter.1 hname).2
  · exact absurd hup (by decide)

/-- Above the place there are directories only. -/
def Rooted (t : FileTree) (l : Location) : Prop :=
  ∀ front name back, l = front ++ name :: back → t.get? front = some .directory

theorem rooted_nil (t : FileTree) : t.Rooted [] := by
  intro front name back heq
  simp at heq

theorem Rooted.dropLast (hl : t.Rooted l) : t.Rooted l.dropLast := by
  intro front name back heq
  rcases List.eq_nil_or_concat l with rfl | ⟨init, last, rfl⟩
  · simp at heq
  · rw [List.concat_eq_append, List.dropLast_concat] at heq
    exact hl front name (back ++ [last]) (by simp [heq])

theorem Rooted.child (hl : t.Rooted l) (hd : t.get? l = some .directory) (name : String) :
    t.Rooted (l ++ [name]) := by
  intro front last back heq
  rcases List.eq_nil_or_concat back with rfl | ⟨init, last', rfl⟩
  · obtain ⟨rfl, -⟩ := List.append_inj' heq rfl
    exact hd
  · rw [List.concat_eq_append, ← List.cons_append, ← List.append_assoc] at heq
    obtain ⟨hfront, -⟩ := List.append_inj' heq rfl
    exact hl front last init hfront

theorem rooted_originOf_of_isAbsolute (hp : p.isAbsolute = true) : t.Rooted (originOf here p) := by
  rw [originOf, if_pos hp]
  exact rooted_nil t

theorem Rooted.originOf (hhere : t.Rooted here) (p : Path) : t.Rooted (originOf here p) := by
  unfold FileTree.originOf
  split
  · exact rooted_nil t
  · exact hhere

theorem Sound.isEntryName_of_mem (ht : t.Sound) (hl : t.get? l = some e) (hname : name ∈ l) :
    IsEntryName name := by
  unfold get? at hl
  split at hl
  · next hnil => simp [hnil] at hname
  · exact ht.names _ (mem_entries_of_lookup hl) name hname

theorem descend_rooted (ht : t.Sound) (hl : t.Rooted (l ++ names))
    (he : t.get? (l ++ names) = some e) (hlink : ∀ target, e ≠ .link target) :
    t.descend true l names = .done (.found (l ++ names)) := by
  induction names generalizing l with
  | nil => simp [descend]
  | cons name rest ih =>
    have hdir : t.get? l = some .directory := hl l name rest rfl
    obtain ⟨-, hdot, hup, -, -, hlong⟩ := ht.isEntryName_of_mem he (List.mem_append_right l List.mem_cons_self)
    have hnext : ∃ e', t.get? (l ++ [name]) = some e' ∧ ∀ target, e' ≠ .link target := by
      cases rest with
      | nil => exact ⟨e, he, hlink⟩
      | cons name' rest => exact ⟨.directory, hl (l ++ [name]) name' rest (by simp), by simp⟩
    obtain ⟨e', he', hlink'⟩ := hnext
    have hrest := ih (l := l ++ [name]) (by simpa using hl) (by simpa using he)
    rw [List.append_assoc, List.singleton_append] at hrest
    rw [descend, if_neg (by simp [hdir]), if_neg hdot, if_neg hup, if_neg (by omega), he']
    cases e' with
    | link target => exact absurd rfl (hlink' target)
    | file bytes executable => exact hrest
    | directory => exact hrest

/-- What is in the tree is found under its own place. -/
theorem status_rooted (ht : t.Sound) (hl : t.Rooted l) (he : t.get? l = some e)
    (hlink : ∀ target, e ≠ .link target) : t.status here ⟨.root, l⟩ = .ok (l, e) := by
  have hdescend : t.descend true [] l = .done (.found l) := descend_rooted (l := []) ht hl he hlink
  have hnul : hasNul ⟨.root, l⟩ = false := by
    unfold hasNul
    rw [List.any_eq_false]
    intro name hname
    obtain ⟨-, -, -, -, hnul, -⟩ := ht.isEntryName_of_mem he hname
    simpa using hnul
  refine status_eq_ok_iff.2 ⟨hnul, ?_, he⟩
  change t.walkTo true mostLinks [] l = .found l
  rw [walkTo, hdescend]

/-- Where the target of a link in the directory `l` starts. -/
def linkStart (l : Location) (target : String) : Location := if target.startsWith "/" then [] else l

/-- From `l` along the names to `l'`, through `n` links in all. -/
inductive Way (t : FileTree) : Nat → Location → List String → Location → Prop where
  | stay (l : Location) : Way t 0 l [] l
  | dot {n : Nat} {l l' : Location} {name : String} {rest : List String} (hdot : name = ".")
      (hrest : Way t n l rest l') : Way t n l (name :: rest) l'
  | up {n : Nat} {l l' : Location} {name : String} {rest : List String} (hup : name = "..")
      (hrest : Way t n l.dropLast rest l') : Way t n l (name :: rest) l'
  | enter {n : Nat} {l l' : Location} {name : String} {rest : List String} (hdot : name ≠ ".")
      (hup : name ≠ "..") (hdir : t.get? l = some .directory)
      (hno : ∀ target, t.get? (l ++ [name]) ≠ some (.link target))
      (hrest : Way t n (l ++ [name]) rest l') : Way t n l (name :: rest) l'
  | link {m n : Nat} {l mid l' : Location} {name target : String} {rest : List String}
      (hdot : name ≠ ".") (hup : name ≠ "..") (hlink : t.get? (l ++ [name]) = some (.link target))
      (hmid : Way t m (linkStart l target) (Path.namesIn target) mid) (hrest : Way t n mid rest l') :
      Way t (m + n + 1) l (name :: rest) l'

namespace Way

theorem unique (hway : Way t n l names l') (hway' : Way t m l names l'') : n = m ∧ l' = l'' := by
  induction hway generalizing m l'' with
  | stay l =>
    cases hway'
    exact ⟨rfl, rfl⟩
  | dot hname hrest ih =>
    cases hway' with
    | dot _ hrest' => exact ih hrest'
    | up hup => exact absurd (hname.symm.trans hup) (by decide)
    | enter hdot => exact absurd hname hdot
    | link hdot => exact absurd hname hdot
  | up hname hrest ih =>
    cases hway' with
    | dot hdot => exact absurd (hname.symm.trans hdot) (by decide)
    | up _ hrest' => exact ih hrest'
    | enter _ hup => exact absurd hname hup
    | link _ hup => exact absurd hname hup
  | enter hdot hup hdir hno hrest ih =>
    cases hway' with
    | dot hname => exact absurd hname hdot
    | up hname => exact absurd hname hup
    | enter _ _ _ _ hrest' => exact ih hrest'
    | link _ _ hlink => exact absurd hlink (hno _)
  | link hdot hup hlink hmid hrest ihmid ihrest =>
    cases hway' with
    | dot hname => exact absurd hname hdot
    | up hname => exact absurd hname hup
    | enter _ _ _ hno => exact absurd hlink (hno _)
    | link _ _ hlink' hmid' hrest' =>
      cases hlink.symm.trans hlink'
      obtain ⟨rfl, rfl⟩ := ihmid hmid'
      obtain ⟨rfl, rfl⟩ := ihrest hrest'
      exact ⟨rfl, rfl⟩

/-- A way can be broken off anywhere. -/
theorem split (hway : Way t n l (names ++ more) l') :
    ∃ m k mid, Way t m l names mid ∧ Way t k mid more l' := by
  induction names generalizing n l with
  | nil => exact ⟨0, n, l, .stay l, hway⟩
  | cons name names ih =>
    cases hway with
    | dot hdot hrest =>
      obtain ⟨m, k, mid, hfront, hback⟩ := ih hrest
      exact ⟨m, k, mid, .dot hdot hfront, hback⟩
    | up hup hrest =>
      obtain ⟨m, k, mid, hfront, hback⟩ := ih hrest
      exact ⟨m, k, mid, .up hup hfront, hback⟩
    | enter hdot hup hdir hno hrest =>
      obtain ⟨m, k, mid, hfront, hback⟩ := ih hrest
      exact ⟨m, k, mid, .enter hdot hup hdir hno hfront, hback⟩
    | link hdot hup hlink hmid hrest =>
      obtain ⟨m, k, mid, hfront, hback⟩ := ih hrest
      exact ⟨_, k, mid, .link hdot hup hlink hmid hfront, hback⟩

/-- The dot that asks for a directory leads no further. -/
theorem of_targetNames (hway : Way t n l (targetNames target) l') :
    ∃ m, Way t m l (Path.namesIn target) l' := by
  unfold targetNames at hway
  split at hway
  · obtain ⟨m, k, mid, hfront, hback⟩ := split hway
    cases hback with
    | dot _ hrest =>
      cases hrest
      exact ⟨m, hfront⟩
    | up hup => exact absurd hup (by decide)
    | enter hdot => exact absurd rfl hdot
    | link hdot => exact absurd rfl hdot
  · exact ⟨n, by simpa using hway⟩

theorem rooted (hway : Way t n l names l') (hl : t.Rooted l) : t.Rooted l' := by
  induction hway with
  | stay l => exact hl
  | dot hdot hrest ih => exact ih hl
  | up hup hrest ih => exact ih hl.dropLast
  | enter hdot hup hdir hno hrest ih => exact ih (hl.child hdir _)
  | link hdot hup hlink hmid hrest ihmid ihrest =>
    refine ihrest (ihmid ?_)
    unfold linkStart
    split
    · exact rooted_nil t
    · exact hl

end Way

/-- What the first name of a way that comes to an end can be. -/
theorem of_walkTo_cons {links : Nat} (hfound : t.walkTo true links l (name :: rest) = .found l') :
    (name = "." ∧ t.walkTo true links l rest = .found l') ∨
    (name = ".." ∧ t.walkTo true links l.dropLast rest = .found l') ∨
    name ≠ "." ∧ name ≠ ".." ∧ t.get? l = some .directory ∧
      (((∀ target, t.get? (l ++ [name]) ≠ some (.link target)) ∧
          t.walkTo true links (l ++ [name]) rest = .found l') ∨
        ∃ target fewer, t.get? (l ++ [name]) = some (.link target) ∧ links = fewer + 1 ∧
          t.walkTo true fewer (linkStart l target) (targetNames target ++ rest) = .found l') := by
  rw [walkTo, descend] at hfound
  by_cases hdir : t.get? l = some .directory
  · rw [if_neg (by simp [hdir])] at hfound
    by_cases hdot : name = "."
    · rw [if_pos hdot, ← walkTo] at hfound
      exact .inl ⟨hdot, hfound⟩
    · rw [if_neg hdot] at hfound
      by_cases hup : name = ".."
      · rw [if_pos hup, ← walkTo] at hfound
        exact .inr (.inl ⟨hup, hfound⟩)
      · rw [if_neg hup] at hfound
        refine .inr (.inr ⟨hdot, hup, hdir, ?_⟩)
        by_cases hlong : longestName < name.utf8ByteSize
        · rw [if_pos hlong] at hfound
          cases hfound
        · rw [if_neg hlong] at hfound
          cases he : t.get? (l ++ [name]) with
          | none =>
            rw [he] at hfound
            dsimp only at hfound
            split at hfound
            · cases hfound
            · cases hfound
          | some e =>
            rw [he] at hfound
            cases e with
            | file bytes executable => exact .inl ⟨by simp, by rwa [walkTo]⟩
            | directory => exact .inl ⟨by simp, by rwa [walkTo]⟩
            | link target =>
              dsimp only at hfound
              rw [if_neg (by simp)] at hfound
              cases links with
              | zero => cases hfound
              | succ fewer => exact .inr ⟨target, fewer, rfl, rfl, hfound⟩
  · rw [if_pos hdir] at hfound
    cases hfound

/-- Whatever is found is found along a way. -/
theorem exists_way_of_walkTo {links : Nat} (hfound : t.walkTo true links l names = .found l') :
    ∃ n, Way t n l names l' := by
  induction links using Nat.strongRecOn generalizing l names with
  | ind links ihlinks =>
    induction names generalizing l with
    | nil =>
      rw [walkTo, descend] at hfound
      cases hfound
      exact ⟨0, .stay _⟩
    | cons name rest ih =>
      rcases of_walkTo_cons hfound with ⟨hdot, hrest⟩ | ⟨hup, hrest⟩ | ⟨hdot, hup, hdir, hnext⟩
      · obtain ⟨n, hway⟩ := ih hrest
        exact ⟨n, .dot hdot hway⟩
      · obtain ⟨n, hway⟩ := ih hrest
        exact ⟨n, .up hup hway⟩
      · rcases hnext with ⟨hno, hrest⟩ | ⟨target, fewer, hlink, rfl, hrest⟩
        · obtain ⟨n, hway⟩ := ih hrest
          exact ⟨n, .enter hdot hup hdir hno hway⟩
        · obtain ⟨n, hway⟩ := ihlinks fewer (Nat.lt_succ_self fewer) hrest
          obtain ⟨m, k, mid, hfront, hback⟩ := hway.split
          obtain ⟨m, hmid⟩ := hfront.of_targetNames
          exact ⟨_, .link hdot hup hlink hmid hback⟩

theorem directory_of_walkTo {links : Nat} (hnames : names ≠ [])
    (hfound : t.walkTo true links l names = .found l') : t.get? l = some .directory := by
  obtain ⟨name, rest, rfl⟩ := List.exists_cons_of_ne_nil hnames
  by_contra hdir
  rw [walkTo, descend, if_pos hdir] at hfound
  cases hfound

/-- Every name on the way to something is that of an entry, or a dot or two. -/
theorem entry_of_walkTo {links : Nat} (hfound : t.walkTo true links l names = .found l')
    (he : t.get? l' = some e) (hname : name ∈ names) :
    name = "." ∨ name = ".." ∨ ∃ k e, t.get? (k ++ [name]) = some e := by
  induction links using Nat.strongRecOn generalizing l names with
  | ind links ihlinks =>
    induction names generalizing l with
    | nil => cases hname
    | cons first rest ih =>
      rcases of_walkTo_cons hfound with ⟨hdot, hrest⟩ | ⟨hup, hrest⟩ | ⟨-, -, -, hnext⟩
      · rcases List.mem_cons.1 hname with rfl | hname
        · exact .inl hdot
        · exact ih hrest hname
      · rcases List.mem_cons.1 hname with rfl | hname
        · exact .inr (.inl hup)
        · exact ih hrest hname
      · rcases hnext with ⟨-, hrest⟩ | ⟨target, fewer, hlink, rfl, hrest⟩
        · rcases List.mem_cons.1 hname with rfl | hname
          · by_cases hnil : rest = []
            · rw [hnil, walkTo, descend] at hrest
              cases hrest
              exact .inr (.inr ⟨_, _, he⟩)
            · exact .inr (.inr ⟨_, _, directory_of_walkTo hnil hrest⟩)
          · exact ih hrest hname
        · rcases List.mem_cons.1 hname with rfl | hname
          · exact .inr (.inr ⟨_, _, hlink⟩)
          · exact ihlinks fewer (Nat.lt_succ_self fewer) hrest (List.mem_append_right _ hname)

theorem Sound.ne_empty_of_status (ht : t.Sound) (hs : t.status here p = .ok (l, e)) : "" ∉ p.parts := by
  intro hmem
  obtain ⟨-, hwalk, he⟩ := status_eq_ok_iff.1 hs
  rcases entry_of_walkTo hwalk he hmem with hdot | hup | ⟨k, e, hentry⟩
  · exact absurd hdot (by decide)
  · exact absurd hup (by decide)
  · exact (ht.isEntryName hentry).1 rfl

/-- What is remembered of links: where those that have been followed lead, and which ones are still
being followed. -/
structure Remembers (t : FileTree) (opens : List Location) (known : Known) : Prop where
  settled : ∀ l name target n x mid, known.lookup (l ++ [name]) = some (some x) →
    t.get? (l ++ [name]) = some (.link target) →
    Way t n (linkStart l target) (Path.namesIn target) mid → x = mid
  opened : ∀ l, known.lookup l = some none → l ∈ opens

theorem Remembers.opening (hknown : Remembers t opens known) (l : Location) :
    Remembers t (l :: opens) ((l, none) :: known) := by
  refine ⟨fun k name target n x mid hlookup => ?_, fun k hlookup => ?_⟩
  · rw [List.lookup_cons] at hlookup
    split at hlookup
    · cases hlookup
    · exact hknown.settled k name target n x mid hlookup
  · rw [List.lookup_cons] at hlookup
    split at hlookup
    · next heq => simp [eq_of_beq heq]
    · exact List.mem_cons_of_mem _ (hknown.opened k hlookup)

theorem Remembers.settling (hknown : Remembers t ((l ++ [name]) :: opens) known)
    (hlink : t.get? (l ++ [name]) = some (.link target))
    (hmid : Way t m (linkStart l target) (Path.namesIn target) mid) :
    Remembers t opens ((l ++ [name], some mid) :: known) := by
  refine ⟨fun k name' target' n x mid' hlookup hlink' hmid' => ?_, fun k hlookup => ?_⟩
  · rw [List.lookup_cons] at hlookup
    split at hlookup
    · next heq =>
      obtain ⟨rfl, hnames⟩ := List.append_inj' (eq_of_beq heq) rfl
      cases hnames
      cases hlink.symm.trans hlink'
      cases hlookup
      exact (hmid.unique hmid').2
    · exact hknown.settled k name' target' n x mid' hlookup hlink' hmid'
  · rw [List.lookup_cons] at hlookup
    split at hlookup
    · cases hlookup
    · next heq =>
      refine List.mem_of_ne_of_mem ?_ (hknown.opened k hlookup)
      rintro rfl
      simp at heq

/-- The links that are still being followed, each through no less than `n` links. -/
structure Follows (t : FileTree) (n : Nat) (opens : List Location) : Prop where
  nodup : opens.Nodup
  long : ∀ l ∈ opens, ∃ front name target m mid, l = front ++ [name] ∧
    t.get? l = some (.link target) ∧ Way t m (linkStart front target) (Path.namesIn target) mid ∧ n ≤ m

theorem Follows.mono (hopens : Follows t n opens) (hle : m ≤ n) : Follows t m opens := by
  refine ⟨hopens.nodup, fun l hl => ?_⟩
  obtain ⟨front, name, target, k, mid, heq, hlink, hway, hk⟩ := hopens.long l hl
  exact ⟨front, name, target, k, mid, heq, hlink, hway, Nat.le_trans hle hk⟩

/-- A link on the way is none of those that the way belongs to. -/
theorem Follows.not_mem (hopens : Follows t n opens)
    (hlink : t.get? (l ++ [name]) = some (.link target))
    (hmid : Way t m (linkStart l target) (Path.namesIn target) mid) (hlt : m < n) :
    l ++ [name] ∉ opens := by
  intro hmem
  obtain ⟨front, name', target', k, mid', heq, hlink', hway, hk⟩ := hopens.long _ hmem
  obtain ⟨rfl, -⟩ := List.append_inj' heq rfl
  cases hlink.symm.trans hlink'
  obtain ⟨rfl, -⟩ := hmid.unique hway
  omega

theorem Follows.length_le (hopens : Follows t n opens) : opens.length ≤ t.linkCount := by
  rw [linkCount, List.countP_eq_length_filter, ← List.length_map Prod.fst]
  refine (hopens.nodup.subperm fun l hl => ?_).length_le
  obtain ⟨front, name, target, -, -, rfl, hlink, -⟩ := hopens.long l hl
  rw [get?_append_name] at hlink
  exact List.mem_map.2 ⟨_, List.mem_filter.2 ⟨mem_entries_of_lookup hlink, rfl⟩, rfl⟩

theorem resolveWith_of_way (hway : Way t n l names l') (hopens : Follows t n opens)
    (hfuel : t.linkCount ≤ opens.length + fuel) (hknown : Remembers t opens known) :
    ∃ known', t.resolveWith (t.resolveNames fuel) l known names = .whole l' known' ∧
      Remembers t opens known' := by
  induction hway generalizing fuel opens known with
  | stay l => exact ⟨known, rfl, hknown⟩
  | dot hdot hrest ih =>
    rw [resolveWith, if_pos hdot]
    exact ih hopens hfuel hknown
  | up hup hrest ih =>
    rw [resolveWith, if_neg (by simp [hup]), if_pos hup]
    exact ih hopens hfuel hknown
  | enter hdot hup hdir hno hrest ih =>
    rw [resolveWith, if_neg hdot, if_neg hup]
    dsimp only
    split
    · next hlink => exact absurd hlink (hno _)
    · exact ih hopens hfuel hknown
  | @link m n l mid l' name target rest hdot hup hlink hmid hrest ihmid ihrest =>
    have hrests : Follows t n opens := hopens.mono (by omega)
    rw [resolveWith, if_neg hdot, if_neg hup]
    dsimp only
    rw [hlink]
    dsimp only
    cases hlookup : known.lookup (l ++ [name]) with
    | some met =>
      cases met with
      | some x =>
        obtain rfl := hknown.settled l name target m x mid hlookup hlink hmid
        exact ihrest hrests hfuel hknown
      | none => exact absurd (hknown.opened _ hlookup) (hopens.not_mem hlink hmid (by omega))
    | none =>
      have hmids : Follows t m ((l ++ [name]) :: opens) := by
        refine ⟨List.nodup_cons.2 ⟨hopens.not_mem hlink hmid (by omega), hopens.nodup⟩, ?_⟩
        intro k hk
        rcases List.mem_cons.1 hk with rfl | hk
        · exact ⟨l, name, target, m, mid, rfl, hlink, hmid, Nat.le_refl m⟩
        · exact (hopens.mono (by omega)).long k hk
      -- this link is open as well now, and no more can be open than there are: some fuel is left
      have hroom := hmids.length_le
      rw [List.length_cons] at hroom
      obtain ⟨fuel, rfl⟩ : ∃ fuel', fuel = fuel' + 1 := ⟨fuel - 1, by omega⟩
      have hfuel' : t.linkCount ≤ ((l ++ [name]) :: opens).length + fuel := by
        rw [List.length_cons]
        omega
      obtain ⟨known', hres, hknown'⟩ := ihmid hmids hfuel' (hknown.opening _)
      rw [linkStart] at hres
      dsimp only
      rw [resolveNames, hres]
      exact ihrest hrests hfuel (hknown'.settling hlink hmid)

theorem exists_way_of_status (hs : t.status here p = .ok (l, e)) :
    ∃ n, Way t n (originOf here p) p.parts l := by
  obtain ⟨-, hwalk, -⟩ := status_eq_ok_iff.1 hs
  exact exists_way_of_walkTo hwalk

theorem rooted_of_status (horigin : t.Rooted (originOf here p))
    (hs : t.status here p = .ok (l, e)) : t.Rooted l := by
  obtain ⟨n, hway⟩ := exists_way_of_status hs
  exact hway.rooted horigin

theorem resolveNames_of_way (hway : Way t n l names l') :
    ∃ known, t.resolveNames (t.linkCount + 1) l names [] = .whole l' known := by
  have hopens : Follows t n [] := ⟨List.nodup_nil, by simp⟩
  have hknown : Remembers t [] [] := ⟨by simp, by simp⟩
  obtain ⟨known, hres, -⟩ := resolveWith_of_way hway hopens (Nat.le_add_left _ _) hknown
  exact ⟨known, by rw [resolveNames, hres]⟩

/-- A path that leads to something resolves to the place that it leads to. -/
theorem resolve_of_status (ht : t.Sound) (horigin : t.Rooted (originOf here p))
    (hs : t.status here p = .ok (l, e)) (hlink : ∀ target, e ≠ .link target) :
    t.resolve here p = .ok ⟨.root, l⟩ := by
  have hl := rooted_of_status horigin hs
  obtain ⟨hnul, -, he⟩ := status_eq_ok_iff.1 hs
  obtain ⟨n, hway⟩ := exists_way_of_status hs
  obtain ⟨known, hres⟩ := resolveNames_of_way hway
  have hdots : ".." ∉ l := by
    intro hmem
    exact (ht.isEntryName_of_mem he hmem).2.2.1 rfl
  have hnames : l.filter Path.isName = l := List.filter_eq_self.2 fun name hmem => by
    obtain ⟨hempty, hdot, -⟩ := ht.isEntryName_of_mem he hmem
    simp [Path.isName, hempty, hdot]
  have hnormal : (Path.mk .root l).normalize = ⟨.root, l⟩ := Path.normalize_of_no_dots hdots
  unfold resolve
  rw [if_neg (by simp [hnul]), hres]
  simp only [hnames, hnormal, status_rooted ht hl he hlink]

end LintRunner.FileTree
