/-!
# Paths

A path names a file from the current directory or, if it begins with a slash, from the top. Repeated
slashes and steps to the same directory do not count; a step upwards stays as it is.

## Main definitions

* `Path`: the paths
* `Path.ofText`, `Path.text`: reading and writing
* `Path.join`, `Path.parent`, `Path.resolve`: the operations

## Main results

* `Path.up_not_mem_resolve`: a resolved path has no steps upwards
-/

namespace RegionLogic

/-- A path: the slashes that it begins with, and its steps. -/
structure Path where
  /-- One or two slashes, or none if the path starts at the current directory. -/
  root : String
  /-- The names of the steps, none of them empty or a single point. -/
  steps : List String
  deriving DecidableEq, Inhabited

namespace Path

/-- The path of the current directory. -/
def here : Path := ⟨"", []⟩

/-- Whether a path starts at the top. -/
def isAbsolute (p : Path) : Bool := !p.root.isEmpty

/-- The steps between slashes. -/
def stepsOf (cs : List Char) : List String :=
  ((String.ofList cs).splitOn "/").filter fun s => !s.isEmpty && s != "."

/-- The path that a text stands for. Exactly two slashes in front are kept as they are. -/
def ofText (s : String) : Path :=
  match s.toList with
  | '/' :: '/' :: '/' :: cs => ⟨"/", stepsOf cs⟩
  | '/' :: '/' :: cs => ⟨"//", stepsOf cs⟩
  | '/' :: cs => ⟨"/", stepsOf cs⟩
  | cs => ⟨"", stepsOf cs⟩

/-- The written form. -/
def text (p : Path) : String :=
  if p.root.isEmpty && p.steps.isEmpty then "." else p.root ++ "/".intercalate p.steps

/-- The path `q` seen from the directory `p`. -/
def join (p q : Path) : Path := if q.isAbsolute then q else ⟨p.root, p.steps ++ q.steps⟩

/-- The path without its last step. -/
def parent (p : Path) : Path := ⟨p.root, p.steps.dropLast⟩

/-- The steps with every step upwards carried out. -/
def climb : List String → List String → List String
  | done, [] => done
  | done, ".." :: steps => climb done.dropLast steps
  | done, step :: steps => climb (done ++ [step]) steps

/-- The absolute path of `p` seen from the directory `current`, without steps upwards. -/
def resolve (current p : Path) : Path :=
  let q := current.join p
  ⟨q.root, climb [] q.steps⟩

/-- The path and the directories above it, the nearest first. -/
def andAbove (p : Path) : List Path :=
  (List.range (p.steps.length + 1)).reverse.map fun n => ⟨p.root, p.steps.take n⟩

@[simp] theorem join_here (p : Path) : p.join here = p := by
  simp [join, here, isAbsolute]

/-- No step upwards is left once all of them are carried out. -/
theorem up_not_mem_climb {done : List String} (h : ".." ∉ done) (steps : List String) :
    ".." ∉ climb done steps := by
  fun_induction climb done steps with
  | case1 done => exact h
  | case2 done steps ih => exact ih fun hm => h (List.dropLast_subset _ hm)
  | case3 done step steps hne ih => exact ih (by simp [h, Ne.symm hne])

/-- A resolved path has no steps upwards. -/
theorem up_not_mem_resolve (current p : Path) : ".." ∉ (current.resolve p).steps :=
  up_not_mem_climb List.not_mem_nil _

theorem length_parent_lt {p : Path} (h : p.steps ≠ []) : p.parent.steps.length < p.steps.length := by
  have := List.length_pos_iff.2 h
  simp [parent]
  omega

end Path

end RegionLogic
