import Mathlib.Data.List.Infix
import Mathlib.Tactic

/-!
# Paths resolved lexically

A path is a text cut into names at a separator.  Resolving it walks through
the names from a directory, which is a list of names itself: the empty name
and a single dot stay, two dots go up, and any other name goes down.  The
root is above itself.  No link is followed.
-/

namespace LexicalPath

variable {α : Type*} [DecidableEq α]

abbrev Name (α : Type*) := List α

def step (dot : α) (dir : List (Name α)) (name : Name α) : List (Name α) :=
  if name = [] ∨ name = [dot] then dir
  else if name = [dot, dot] then dir.dropLast
  else dir ++ [name]

def walk (dot : α) (dir : List (Name α)) (names : List (Name α)) : List (Name α) :=
  names.foldl (step dot) dir

/-- The directory or file of a path for the current directory `cwd`. -/
def resolve (sep dot : α) (cwd : List (Name α)) (path : List α) : List (Name α) :=
  walk dot (if path.head? = some sep then [] else cwd) (path.splitOn sep)

def Inside (sep dot : α) (cwd : List (Name α)) (root path : List α) : Prop :=
  resolve sep dot cwd root <+: resolve sep dot cwd path

instance (sep dot : α) (cwd : List (Name α)) (root path : List α) :
    Decidable (Inside sep dot cwd root path) :=
  inferInstanceAs (Decidable (_ <+: _))

variable {sep dot : α} {cwd : List (Name α)}

theorem walk_append (dir : List (Name α)) (names more : List (Name α)) :
    walk dot dir (names ++ more) = walk dot (walk dot dir names) more :=
  List.foldl_append

theorem inside_refl (path : List α) : Inside sep dot cwd path path :=
  List.prefix_refl _

theorem resolve_append {path : List α} (hpath : path ≠ []) (rest : List α) :
    resolve sep dot cwd (path ++ sep :: rest) =
      walk dot (resolve sep dot cwd path) (rest.splitOn sep) := by
  unfold resolve
  rw [List.splitOn_append_cons_self, walk_append, List.head?_append_of_ne_nil _ hpath]

/-- A slash at the end changes nothing. -/
theorem resolve_append_sep {path : List α} (hpath : path ≠ []) :
    resolve sep dot cwd (path ++ [sep]) = resolve sep dot cwd path := by
  rw [resolve_append hpath]
  simp [walk, step]

theorem resolve_below_sep (path rest : List α) :
    resolve sep dot cwd (path ++ sep :: rest) =
      walk dot (resolve sep dot cwd (path ++ [sep])) (rest.splitOn sep) := by
  by_cases hpath : path = []
  · subst hpath
    have hrest := List.splitOn_append_cons_self (a := sep) [] rest
    have hroot := List.splitOn_append_cons_self (a := sep) [] ([] : List α)
    rw [List.nil_append] at hrest hroot
    unfold resolve
    rw [List.nil_append, List.nil_append, hrest, hroot]
    simp [walk, step]
  · rw [resolve_append hpath, resolve_append_sep hpath]

/-! ## Entries of a directory -/

/-- A name that leads down: no separator, and not two dots. -/
def Descends (sep dot : α) (name : Name α) : Prop :=
  sep ∉ name ∧ name ≠ [dot, dot]

theorem prefix_walk_of_descends {dir : List (Name α)} {name : Name α}
    (hname : Descends sep dot name) :
    dir <+: walk dot dir (name.splitOn sep) := by
  rw [List.splitOn_eq_singleton hname.1]
  change dir <+: step dot dir name
  unfold step
  rw [if_neg hname.2]
  split
  · exact List.prefix_refl dir
  · exact List.prefix_append dir [name]

theorem Inside.entry {root path : List α} {name : Name α} (hpath : path ≠ [])
    (hinside : Inside sep dot cwd root path) (hname : Descends sep dot name) :
    Inside sep dot cwd root (path ++ sep :: name) := by
  unfold Inside
  rw [resolve_append hpath]
  exact hinside.trans (prefix_walk_of_descends hname)

theorem Inside.entry_of_sep {root path : List α} {name : Name α}
    (hinside : Inside sep dot cwd root (path ++ [sep]))
    (hname : Descends sep dot name) :
    Inside sep dot cwd root (path ++ sep :: name) := by
  unfold Inside
  rw [resolve_below_sep]
  exact hinside.trans (prefix_walk_of_descends hname)

/-! ## How far a path climbs -/

/-- One name after a walk that has gone up `climb.1` directories and then
down to the names `climb.2`. -/
def climbStep (dot : α) (climb : ℕ × List (Name α)) (name : Name α) :
    ℕ × List (Name α) :=
  if name = [] ∨ name = [dot] then climb
  else if name = [dot, dot] then
    if climb.2 = [] then (climb.1 + 1, []) else (climb.1, climb.2.dropLast)
  else (climb.1, climb.2 ++ [name])

/-- How many directories a walk goes up, and the names that it goes down to
afterwards. -/
def climb (dot : α) (names : List (Name α)) : ℕ × List (Name α) :=
  names.foldl (climbStep dot) (0, [])

theorem climb_fst_eq_zero {names : List (Name α)}
    (hnames : ∀ name ∈ names, name ≠ [dot, dot]) : (climb dot names).1 = 0 := by
  have hrun : ∀ start, (names.foldl (climbStep dot) start).1 = start.1 := by
    induction names with
    | nil => intro start; rfl
    | cons name names ih =>
        intro start
        rw [List.foldl_cons, ih fun other hmem => hnames other (by simp [hmem])]
        unfold climbStep
        rw [if_neg (hnames name (by simp))]
        split <;> rfl
  exact hrun (0, [])

def reach (dir : List (Name α)) (climb : ℕ × List (Name α)) : List (Name α) :=
  dir.take (dir.length - climb.1) ++ climb.2

theorem step_reach (dir : List (Name α)) (climb : ℕ × List (Name α))
    (name : Name α) :
    step dot (reach dir climb) name = reach dir (climbStep dot climb name) := by
  obtain ⟨up, down⟩ := climb
  unfold step climbStep reach
  split_ifs with hstay hup hdown
  · rfl
  · rw [hdown, List.append_nil, List.append_nil, List.dropLast_eq_take,
      List.take_take, List.length_take]
    congr 1
    omega
  · rw [List.dropLast_append_of_ne_nil hdown]
  · rw [List.append_assoc]

theorem walk_eq_reach (dir : List (Name α)) (names : List (Name α)) :
    walk dot dir names = reach dir (climb dot names) := by
  have hrun : ∀ start, walk dot (reach dir start) names =
      reach dir (names.foldl (climbStep dot) start) := by
    induction names with
    | nil => intro start; rfl
    | cons name names ih =>
        intro start
        change walk dot (step dot (reach dir start) name) names = _
        rw [step_reach]
        exact ih _
  have hstart : reach dir (0, []) = dir := by simp [reach]
  calc
    walk dot dir names = walk dot (reach dir (0, [])) names := by rw [hstart]
    _ = reach dir (climb dot names) := hrun (0, [])

/-- A walk ends below its start exactly when it comes down through the
directories that it has climbed. -/
theorem prefix_walk_iff (dir : List (Name α)) (names : List (Name α)) :
    dir <+: walk dot dir names ↔
      dir.drop (dir.length - (climb dot names).1) <+: (climb dot names).2 := by
  rw [walk_eq_reach]
  unfold reach
  conv_lhs => lhs; rw [← List.take_append_drop
    (dir.length - (climb dot names).1) dir]
  exact List.prefix_append_right_inj _

end LexicalPath
