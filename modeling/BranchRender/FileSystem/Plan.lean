/-
PLANS: sequences of file-system operations in which a later one may depend on the answers of earlier ones.

- A `Plan` ends with a value, looks at the file system, or performs a change and goes on with its answer.
- `Plan.run` carries it out. `Plan.MayStop` says which file systems a plan may leave behind when it is stopped at any
  point, with bytes added up to any length.
- `Plan.MayEnd` says how a plan may end where the system may refuse any of its operations, a full disk or a failed sync.
- `Plan.makeDirectories` makes a directory and what is missing above it.

Main statements: `run_bind`, `mayStop_before`, `mayStop_after`, `mayEnd_run`.
-/
import BranchRender.FileSystem.Change

namespace BranchRender

/-- operations on a file system, and a value at their end -/
inductive Plan (α : Type) : Type 1
  | done (a : α)
  | look (next : FileSystem → Plan α)
  | step {β : Type} (c : Change β) (next : Except IoFault β → Plan α)

namespace Plan

variable {α β γ : Type}

/-- `x`, and then what `f` makes of its value -/
def andThen (x : Plan α) (f : α → Plan β) : Plan β :=
  match x with
  | .done a => f a
  | .look next => .look fun fs => (next fs).andThen f
  | .step c next => .step c fun r => (next r).andThen f

instance : Monad Plan where
  pure := .done
  bind := andThen

/-- what can be said of the file system at this point -/
def observe (f : FileSystem → α) : Plan α := .look fun fs => .done (f fs)

/-- an operation and its answer -/
def change (c : Change α) : Plan (Except IoFault α) := .step c .done

/-! ## Running -/

/-- the value of a plan, and the file system after it -/
def run : Plan α → FileSystem → α × FileSystem
  | .done a, fs => (a, fs)
  | .look next, fs => (next fs).run fs
  | .step c next, fs => (next (fs.perform c).1).run (fs.perform c).2

/-- the file systems an operation may leave behind when it is stopped before its end -/
def MayBreak (c : Change α) (fs s : FileSystem) : Prop :=
  s = fs ∨ match c with
    | .append l bytes => ∃ n, s = (fs.perform (.append l (bytes.take n))).2
    | _ => False

/-- the file systems a plan may leave behind when it is stopped anywhere -/
def MayStop : Plan α → FileSystem → FileSystem → Prop
  | .done _, fs, s => s = fs
  | .look next, fs, s => (next fs).MayStop fs s
  | .step c next, fs, s => MayBreak c fs s ∨ (next (fs.perform c).1).MayStop (fs.perform c).2 s

/-- an operation's own answer, or a refusal: the system may break the operation off, but says that something is missing only
where it is -/
def MayAnswer (c : Change α) (fs : FileSystem) (r : Except IoFault α) (s : FileSystem) : Prop :=
  (r, s) = fs.perform c ∨ (∃ e, r = .error (.system e) ∧ e ≠ .notFound) ∧ MayBreak c fs s

/-- the ends of a plan any operation of which may be refused -/
def MayEnd : Plan α → FileSystem → α → FileSystem → Prop
  | .done a, fs, b, s => b = a ∧ s = fs
  | .look next, fs, b, s => (next fs).MayEnd fs b s
  | .step c next, fs, b, s => ∃ r m, MayAnswer c fs r m ∧ (next r).MayEnd m b s

@[simp] theorem run_pure (a : α) (fs : FileSystem) : (pure a : Plan α).run fs = (a, fs) := rfl

@[simp] theorem run_observe (f : FileSystem → α) (fs : FileSystem) : (observe f).run fs = (f fs, fs) := rfl

@[simp] theorem run_change (c : Change α) (fs : FileSystem) : (change c).run fs = fs.perform c := rfl

@[simp] theorem run_bind (x : Plan α) (f : α → Plan β) (fs : FileSystem) :
    (x >>= f).run fs = (f (x.run fs).1).run (x.run fs).2 := by
  show (x.andThen f).run fs = _
  induction x generalizing fs with
  | done a => rfl
  | look next ih => exact ih fs fs
  | step c next ih => exact ih _ _

theorem bind_assoc (x : Plan α) (f : α → Plan β) (g : β → Plan γ) : x >>= f >>= g = x >>= fun a => f a >>= g := by
  show (x.andThen f).andThen g = x.andThen fun a => (f a).andThen g
  induction x with
  | done a => rfl
  | look next ih => exact congrArg look (funext ih)
  | step c next ih => exact congrArg (step c) (funext ih)

theorem mayStop_before (x : Plan α) (fs : FileSystem) : x.MayStop fs fs := by
  induction x generalizing fs with
  | done a => rfl
  | look next ih => exact ih fs fs
  | step c next ih => exact .inl (.inl rfl)

theorem mayStop_after (x : Plan α) (fs : FileSystem) : x.MayStop fs (x.run fs).2 := by
  induction x generalizing fs with
  | done a => rfl
  | look next ih => exact ih fs fs
  | step c next ih => exact .inr (ih _ _)

/-- where nothing is refused, a plan ends as it runs -/
theorem mayEnd_run (x : Plan α) (fs : FileSystem) : x.MayEnd fs (x.run fs).1 (x.run fs).2 := by
  induction x generalizing fs with
  | done a => exact ⟨rfl, rfl⟩
  | look next ih => exact ih fs fs
  | step c next ih => exact ⟨_, _, .inl rfl, ih _ _⟩

/-! ## Directories -/

/-- makes the first of these directories; those after it are above it, and made where they are missing -/
def makeAll : List Path → Plan (Except IoFault Unit)
  | [] => pure (.ok ())
  | p :: above => do
    match ← change (.makeDirectory p) with
    | .ok () => pure (.ok ())
    | .error e =>
      if e = .system .notFound then
        match ← makeAll above with
        | .error e => pure (.error e)
        | .ok () =>
          match ← change (.makeDirectory p) with
          | .ok () => pure (.ok ())
          | .error e => observe fun fs => if fs.isDirectory p then .ok () else .error e
      else observe fun fs => if fs.isDirectory p then .ok () else .error e

/-- makes a directory and what is missing above it -/
def makeDirectories (p : Path) : Plan (Except IoFault Unit) := makeAll p.ancestors

/-- puts bytes into a file -/
def save (p : Path) (bytes : List UInt8) : Plan (Except IoFault Unit) := do
  match ← change (.create p) with
  | .error e => pure (.error e)
  | .ok l => change (.append l bytes)

end Plan
end BranchRender
