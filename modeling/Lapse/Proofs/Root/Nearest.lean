import Lapse.Proofs.Files.Path
import Lapse.Root

/-!
# The nearest root

A command that was given no root climbs from the current directory, one directory after the other,
until there is a state directory or nothing above.  It looks at each directory once and at the deepest
first, so that what it finds has every other root on its way above it.  The path that it goes on with
leads to the place that it found, and nothing but a directory counts as a state directory.
-/

namespace Lapse.Root

open Lapse.Files

variable {t t' : Tree} {here up root other : Location} {looked : List Location}
  {found : Option Location}

/-! ## The locations above a location -/

theorem above?_concat (here : Location) (name : String) : above? (here ++ [name]) = some here := by
  rw [above?, if_neg (by simp), List.dropLast_concat]

theorem above?_eq_none_iff : above? here = none ↔ here = [] := by
  rw [above?]
  split
  · next htop => exact iff_of_true rfl (List.isEmpty_iff.mp htop)
  · next htop => exact iff_of_false nofun fun h => htop (List.isEmpty_iff.mpr h)

theorem exists_of_above? (h : above? here = some up) : ∃ name, here = up ++ [name] := by
  rcases List.eq_nil_or_concat here with rfl | ⟨before, name, rfl⟩
  · exact nomatch h
  · rw [List.concat_eq_append, above?_concat, Option.some.injEq] at h
    exact ⟨name, by rw [h, List.concat_eq_append]⟩

theorem ancestors_concat (here : Location) (name : String) :
    ancestors (here ++ [name]) = (here ++ [name]) :: ancestors here := by
  have hbelow : ∀ n ∈ (List.range (here.length + 1)).reverse,
      (here ++ [name]).take n = here.take n := by
    intro n hn
    have := List.mem_range.mp (List.mem_reverse.mp hn)
    exact List.take_append_of_le_length (by omega)
  rw [ancestors, List.length_append, List.length_singleton, List.range_succ, List.reverse_concat,
    List.map_cons, List.map_congr_left hbelow, List.take_of_length_le (by simp)]
  rfl

theorem prefix_ancestors (here : Location) : [here] <+: ancestors here := by
  rcases List.eq_nil_or_concat here with rfl | ⟨before, name, rfl⟩
  · exact List.prefix_refl [[]]
  · rw [List.concat_eq_append, ancestors_concat]
    exact List.cons_prefix_cons.mpr ⟨rfl, List.nil_prefix⟩

/-- What is on the way to a location is the location itself or on the way to the one above. -/
theorem prefix_iff_of_above? (h : above? here = some up) :
    other <+: here ↔ other = here ∨ other <+: up := by
  obtain ⟨name, rfl⟩ := exists_of_above? h
  exact List.prefix_concat_iff

theorem hasState_iff :
    hasState t here = true ↔ t.get? (here ++ [".expiry"]) = some .directory := by
  rw [hasState, Tree.isDirectory_iff, stateName]
  simp

/-! ## The climb -/

/-- A course of the climb from a location: the locations that it looks at, one after the other, and
what it finds. -/
inductive Climbs (t : Tree) : Location → List Location → Option Location → Prop
  | found {here : Location} (state : hasState t here = true) : Climbs t here [here] (some here)
  | top {here : Location} (bare : ¬hasState t here = true) (ended : above? here = none) :
      Climbs t here [here] none
  | up {here up : Location} {looked : List Location} {found : Option Location}
      (bare : ¬hasState t here = true) (step : above? here = some up)
      (rest : Climbs t up looked found) : Climbs t here (here :: looked) found

/-- **THE CLIMB ENDS**: from every location there is a course of the climb. -/
theorem exists_climbs (t : Tree) (here : Location) : ∃ looked, Climbs t here looked (climb t here) := by
  fun_induction climb t here with
  | case1 here hstate => exact ⟨_, .found hstate⟩
  | case2 here hstate htop => exact ⟨_, .top hstate htop⟩
  | case3 here hstate up hup ih =>
      obtain ⟨looked, hrest⟩ := ih
      exact ⟨_, .up hstate hup hrest⟩

namespace Climbs

/-- There is one course only. -/
theorem unique {looked' : List Location} {found' : Option Location} (h : Climbs t here looked found)
    (h' : Climbs t here looked' found') : looked' = looked ∧ found' = found := by
  induction h generalizing looked' with
  | found hstate =>
      cases h' with
      | found => exact ⟨rfl, rfl⟩
      | top hbare => exact absurd hstate hbare
      | up hbare => exact absurd hstate hbare
  | top hbare hended =>
      cases h' with
      | found hstate => exact absurd hstate hbare
      | top => exact ⟨rfl, rfl⟩
      | up _ hstep => exact nomatch hended.symm.trans hstep
  | up hbare hstep _ ih =>
      cases h' with
      | found hstate => exact absurd hstate hbare
      | top _ hended => exact nomatch hended.symm.trans hstep
      | up _ hstep' hrest =>
          obtain rfl := Option.some.inj (hstep.symm.trans hstep')
          obtain ⟨rfl, rfl⟩ := ih hrest
          exact ⟨rfl, rfl⟩

/-- It looks at the locations from the first one up, in order, and passes over none. -/
theorem prefix_ancestors (h : Climbs t here looked found) : looked <+: ancestors here := by
  induction h with
  | found => exact Root.prefix_ancestors _
  | top => exact Root.prefix_ancestors _
  | up _ hstep _ ih =>
      obtain ⟨name, rfl⟩ := exists_of_above? hstep
      rw [ancestors_concat]
      exact List.cons_prefix_cons.mpr ⟨rfl, ih⟩

/-- **THE NEAREST**: what the climb finds is on the way, has a state directory, and lies below all else
on the way that has one. -/
theorem nearest (h : Climbs t here looked found) (hfound : found = some root) :
    hasState t root = true ∧ root <+: here ∧
      ∀ other, other <+: here → hasState t other = true → other <+: root := by
  induction h with
  | found hstate =>
      obtain rfl := Option.some.inj hfound
      exact ⟨hstate, List.prefix_refl _, fun _ hother _ => hother⟩
  | top => exact nomatch hfound
  | up hbare hstep _ ih =>
      obtain ⟨hstate, hwithin, hdeepest⟩ := ih hfound
      refine ⟨hstate, (prefix_iff_of_above? hstep).mpr (.inr hwithin), fun other hother hhas => ?_⟩
      rcases (prefix_iff_of_above? hstep).mp hother with rfl | hother
      · exact absurd hhas hbare
      · exact hdeepest other hother hhas

/-- A climb that finds nothing has passed no state directory. -/
theorem nothing (h : Climbs t here looked found) (hfound : found = none) (hother : other <+: here) :
    ¬hasState t other = true := by
  induction h with
  | found => exact nomatch hfound
  | top hbare hended =>
      obtain rfl := above?_eq_none_iff.mp hended
      rwa [List.prefix_nil.mp hother]
  | up hbare hstep _ ih =>
      rcases (prefix_iff_of_above? hstep).mp hother with rfl | hother
      · exact hbare
      · exact ih hfound hother

end Climbs

/-- Only the state directories on the way count. -/
theorem climb_congr (h : ∀ other, other <+: here → hasState t' other = hasState t other) :
    climb t' here = climb t here := by
  fun_induction climb t here with
  | case1 here hstate => rw [climb, if_pos (h here (List.prefix_refl here) ▸ hstate)]
  | case2 here hbare hended =>
      rw [climb, if_neg (h here (List.prefix_refl here) ▸ hbare)]
      split
      · rfl
      · next hstep => exact nomatch hended.symm.trans hstep
  | case3 here hbare up hstep ih =>
      have hrest := ih fun other hother => h other ((prefix_iff_of_above? hstep).mpr (.inr hother))
      rw [climb, if_neg (h here (List.prefix_refl here) ▸ hbare)]
      split
      · next hended => exact nomatch hended.symm.trans hstep
      · next hstep' =>
        obtain rfl := Option.some.inj (hstep.symm.trans hstep')
        exact hrest

/-- The nearest root is on the way. -/
theorem nearest_within (t : Tree) (cwd : Location) : nearest t cwd <+: cwd := by
  obtain ⟨looked, hclimbs⟩ := exists_climbs t cwd
  rw [nearest]
  cases hfound : climb t cwd with
  | none => exact List.prefix_refl cwd
  | some root => exact (hclimbs.nearest hfound).2.1

/-! ## The path of a location -/

/-- The text of an absolute path after its names were put behind another text. -/
theorem pieces_append_names {names : List String} (h : ∀ name ∈ names, '/' ∉ name.toList)
    (text : List Char) : Tree.pieces (text ++ names.flatMap fun name => '/' :: name.toList) =
      Tree.pieces text ++ names.map String.toList := by
  induction names generalizing text with
  | nil => simp
  | cons name names ih =>
      obtain ⟨hname, hnames⟩ := List.forall_mem_cons.mp h
      have hrest := ih hnames name.toList
      rw [Tree.pieces_of_not_mem hname] at hrest
      rw [List.flatMap_cons, List.cons_append, Tree.pieces_append_slash, hrest]
      rfl

theorem toList_pathOf (hhere : here ≠ []) :
    (pathOf here).toList = here.flatMap fun name => '/' :: name.toList := by
  rw [pathOf, if_neg (by simpa using hhere)]
  simp [List.flatMap_map]

theorem parts_pathOf (hhere : here ≠ []) (h : ∀ name ∈ here, '/' ∉ name.toList) :
    Tree.parts (pathOf here) = "" :: here := by
  have hpieces := pieces_append_names h []
  rw [List.nil_append] at hpieces
  rw [Tree.parts, toList_pathOf hhere, hpieces]
  simp [Tree.pieces]

/-- The path of a location begins at the top. -/
theorem start_pathOf (cwd here : Location) : Tree.start cwd (pathOf here) = [] := by
  rw [Tree.start]
  cases here with
  | nil => rfl
  | cons name rest =>
      rw [toList_pathOf (List.cons_ne_nil name rest)]
      rfl

/-- A name that leads from a directory to one in it. -/
def LeadsDown (name : String) : Prop :=
  '/' ∉ name.toList ∧ Tree.stays name = false ∧ name ≠ ".."

instance (name : String) : Decidable (LeadsDown name) := inferInstanceAs (Decidable (_ ∧ _))

theorem arrive_names {names : List String} (h : ∀ name ∈ names, LeadsDown name) (here : Location) :
    Tree.arrive here names = here ++ names := by
  induction names generalizing here with
  | nil => rw [Tree.arrive, List.append_nil]
  | cons name names ih =>
      obtain ⟨⟨-, hstays, hup⟩, hnames⟩ := List.forall_mem_cons.mp h
      rw [Tree.arrive, hstays, if_neg Bool.false_ne_true, if_neg hup, ih hnames, List.append_assoc]
      rfl

/-- From everywhere, the path of a location leads to it. -/
theorem arrive_pathOf (h : ∀ name ∈ here, LeadsDown name) (cwd : Location) :
    Tree.arrive (Tree.start cwd (pathOf here)) (Tree.parts (pathOf here)) = here := by
  rw [start_pathOf]
  by_cases htop : here = []
  · rw [htop]
    rfl
  · rw [parts_pathOf htop fun name hname => (h name hname).1]
    exact arrive_names h []

/-! ## The root of a command -/

/-- What is no directory makes no root where there was none. -/
theorem hasState_insert {place : Location} {entry : Entry} (hentry : entry ≠ .directory)
    (h : t.get? (place ++ [".expiry"]) ≠ some .directory) (other : Location) :
    hasState (t.insert (place ++ [".expiry"]) entry) other = hasState t other := by
  rw [Bool.eq_iff_iff, hasState_iff, hasState_iff, OrderedMap.get?_insert]
  split
  · next heq =>
    rw [heq]
    exact iff_of_false (fun hdir => hentry (Option.some.inj hdir)) h
  · rfl

/-- **THE ROOT OF A COMMAND**: with a root of its own a command works on that.  Without one there is
one course of the climb from the current directory, which looks at directories one above the other.  It
ends with the deepest directory at or above the current one that has a state directory, or else with
the current one, and the path that is gone on with leads there.  What bears the name of a state
directory and is a file counts for nothing. -/
theorem resolve_nearest (t : Tree) (cwd : Location) :
    let housed := fun place : Location => t.get? (place ++ [".expiry"]) = some .directory
    (∀ path, resolve t cwd (some path) = path) ∧
    (∃ looked found, looked <+: ancestors cwd ∧ resolve t cwd none = pathOf (found.getD cwd) ∧
      ∀ looked' found', Climbs t cwd looked' found' ↔ looked' = looked ∧ found' = found) ∧
    (∃ root, resolve t cwd none = pathOf root ∧
      ((housed root ∧ root <+: cwd ∧ ∀ other, other <+: cwd → housed other → other <+: root) ∨
        root = cwd ∧ ∀ other, other <+: cwd → ¬housed other) ∧
      ((∀ name ∈ cwd, LeadsDown name) → ∀ place,
        Tree.arrive (Tree.start place (pathOf root)) (Tree.parts (pathOf root)) = root)) ∧
    ∀ place bytes, ¬housed place →
      resolve (t.insert (place ++ [".expiry"]) (.file bytes)) cwd none = resolve t cwd none := by
  obtain ⟨looked, hclimbs⟩ := exists_climbs t cwd
  refine ⟨fun _ => rfl, ⟨looked, climb t cwd, hclimbs.prefix_ancestors, rfl, ?_⟩,
    ⟨nearest t cwd, rfl, ?_, ?_⟩, ?_⟩
  · intro looked' found'
    constructor
    · exact hclimbs.unique
    · rintro ⟨rfl, rfl⟩
      exact hclimbs
  · simp only [← hasState_iff]
    rw [nearest]
    cases hfound : climb t cwd with
    | some root => exact .inl (hclimbs.nearest hfound)
    | none => exact .inr ⟨rfl, fun other => hclimbs.nothing hfound⟩
  · intro hnames place
    exact arrive_pathOf (fun name hname => hnames name ((nearest_within t cwd).subset hname)) place
  · intro place bytes hplace
    have hclimb : climb (t.insert (place ++ [".expiry"]) (.file bytes)) cwd = climb t cwd :=
      climb_congr fun other _ => @hasState_insert t place (.file bytes) nofun hplace other
    rw [resolve, resolve, nearest, nearest, hclimb]

/-- A root, and two directories below it. -/
def workshop : Tree :=
  (((OrderedMap.empty.insert ["srv"] .directory).insert ["srv", ".expiry"] .directory).insert
    ["srv", "a"] .directory).insert ["srv", "a", "b"] .directory

/-- The root is found also past a file that bears the name of a state directory. -/
theorem resolve_nearest_workshop :
    resolve (workshop.insert ["srv", "a", ".expiry"] (.file [])) ["srv", "a", "b"] none = "/srv" ∧
      Tree.arrive (Tree.start [] "/srv") (Tree.parts "/srv") = ["srv"] := by
  obtain ⟨-, -, ⟨root, hroot, hnearest, hpath⟩, hfile⟩ := resolve_nearest workshop ["srv", "a", "b"]
  have hone : ∀ n < 4, workshop.get? (["srv", "a", "b"].take n ++ [".expiry"]) = some .directory →
      n = 1 := by decide
  obtain rfl : root = ["srv"] := by
    rcases hnearest with ⟨hhoused, hwithin, -⟩ | ⟨-, hnone⟩
    · have htake := List.prefix_iff_eq_take.mp hwithin
      have hlength := hone root.length (Nat.lt_succ_of_le hwithin.length_le) (htake ▸ hhoused)
      rw [htake, hlength]
      rfl
    · exact absurd (by decide) (hnone ["srv"] (by decide))
  exact ⟨(hfile ["srv", "a"] [] (by decide)).trans hroot, hpath (by decide) []⟩

end Lapse.Root
