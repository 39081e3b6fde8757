import StackMachine.Proofs.Machine.Effect
import StackMachine.Proofs.Machine.Pointers
import StackMachine.Proofs.Stream.Sink

/-!
# Two runs side by side

Much of what there is to know about machines has one form. Two machines belong together. The same
effect is run on both. Then the results are the same, and the machines belong together again. An
invariant has this form too: there a machine belongs together with itself, as long as the invariant
holds.

What belongs together is left open here. It only has to survive the basic changes that effects are
made of. Each property of effects is then proved by a look at these changes, and the effects
themselves are walked through only once.

## Main definitions

* `Coupling`: when two machines belong together, and what else is asked of the runs.
* `Coupling.Ends`: two runs have ended in the same way.
* `Coupling.Coupled`: from machines that belong together, two effects end in the same way.
* `Coupling.Laws`: the basic changes that every effect is made of keep machines together.
* `Coupling.AcquisitionLaws`: so do requests for memory and files.

## Main results

* `Coupling.Coupled.bind`: effects that are run one after the other.
* `Coupling.Laws.call`: built-in functions keep machines together.
-/

namespace StackMachine

/-- When two machines belong together, and what else is asked of two runs of the same effect. -/
structure Coupling where
  /-- The machines belong together, and have at least so many values on their stacks that may be
  taken. -/
  rel : (own : Nat) → Machine → Machine → Prop
  /-- How the runs may be interrupted. -/
  allowed : Interruption → Prop
  /-- What holds of all pointers that are passed on. -/
  pointer : Pointer → Prop
  /-- Whether nothing is asked if the second run is left unfinished. -/
  lax : Prop

namespace Coupling

variable {C : Coupling} {α β : Type} {before middle own after line : Nat} {m n : Machine}
  {runner other : Runner}

/-- The pointers in a value are such as may be passed on. -/
abbrev Passes (C : Coupling) (value : Value) : Prop := value.All C.pointer

/-- Two runs have ended in the same way. A result satisfies `post`, and leaves the machines with
`after` values at least. -/
inductive Ends (C : Coupling) (after : Nat) (post : α → Prop) :
    Except Interruption α × Machine → Except Interruption α × Machine → Prop
  /-- Both gave the same result. -/
  | ok {a : α} {m n : Machine} (hpost : post a) (hrel : C.rel after m n) :
      Ends C after post (.ok a, m) (.ok a, n)
  /-- Both were interrupted in the same way. -/
  | error {e : Interruption} {m n : Machine} (hallowed : C.allowed e) (hrel : C.rel 0 m n) :
      Ends C after post (.error e, m) (.error e, n)
  /-- The second one did not end. -/
  | unfinished {first : Except Interruption α × Machine} {n : Machine} (hlax : C.lax) :
      Ends C after post first (.error .unfinished, n)

/-- From machines that belong together with `before` values at least, the effects end in the same
way. -/
def Coupled (C : Coupling) (before : Nat) (x y : Effect α) (after : Nat) (post : α → Prop) : Prop :=
  ∀ m n, C.rel before m n → C.Ends after post (x.run m) (y.run n)

/-! ### Ends of two runs -/

namespace Ends

variable {post : α → Prop} {first second : Except Interruption α × Machine}

/-- The results are the same. -/
theorem result_eq (h : C.Ends after post first second) (hlax : ¬C.lax) : first.1 = second.1 := by
  cases h with
  | ok => rfl
  | error => rfl
  | unfinished hunfinished => exact absurd hunfinished hlax

/-- A result is as it should be. -/
theorem post_of_ok (h : C.Ends after post first second) (hlax : ¬C.lax) {a : α}
    (ha : first.1 = .ok a) : post a := by
  cases h with
  | ok hpost =>
    cases ha
    exact hpost
  | error => cases ha
  | unfinished hunfinished => exact absurd hunfinished hlax

/-- An interruption is as it should be. -/
theorem allowed_of_error (h : C.Ends after post first second) (hlax : ¬C.lax) {e : Interruption}
    (he : first.1 = .error e) : C.allowed e := by
  cases h with
  | ok => cases he
  | error hallowed =>
    cases he
    exact hallowed
  | unfinished hunfinished => exact absurd hunfinished hlax

/-- However the runs ended, the machines belong together. -/
theorem rel (h : C.Ends 0 post first second) (hlax : ¬C.lax) : C.rel 0 first.2 second.2 := by
  cases h with
  | ok _ hrel => exact hrel
  | error _ hrel => exact hrel
  | unfinished hunfinished => exact absurd hunfinished hlax

/-- Less may be said about the result. -/
theorem imp {post' : α → Prop} (h : C.Ends after post first second)
    (hpost : ∀ a, post a → post' a) : C.Ends after post' first second := by
  cases h with
  | ok h hrel => exact .ok (hpost _ h) hrel
  | error hallowed hrel => exact .error hallowed hrel
  | unfinished hunfinished => exact .unfinished hunfinished

/-- What follows starts where the first parts have ended. -/
theorem bind {x y : Effect α} {f g : α → Effect β} {post' : β → Prop}
    (hx : C.Ends middle post (x.run m) (y.run n))
    (hf : ∀ a, post a → C.Coupled middle (f a) (g a) after post') :
    C.Ends after post' ((x >>= f).run m) ((y >>= g).run n) := by
  rw [Effect.run_bind, Effect.run_bind]
  generalize x.run m = first at hx
  generalize y.run n = second at hx
  cases hx with
  | ok hpost hrel => exact hf _ hpost _ _ hrel
  | error hallowed hrel => exact .error hallowed hrel
  | unfinished hlax => exact .unfinished hlax

end Ends

/-! ### Rules for effects -/

/-- What follows starts where the first parts have ended, from whatever machines. -/
theorem Coupled.bind {x y : Effect α} {f g : α → Effect β} {post : α → Prop} {post' : β → Prop}
    (hx : C.Coupled before x y middle post)
    (hf : ∀ a, post a → C.Coupled middle (f a) (g a) after post') :
    C.Coupled before (x >>= f) (y >>= g) after post' :=
  fun m n h => (hx m n h).bind hf

/-- Nothing is done before a result. -/
theorem coupled_pure {a : α} {post : α → Prop} (h : post a) :
    C.Coupled before (pure a) (pure a) before post := fun _ _ hrel => .ok h hrel

/-- A plain value may be passed on. -/
theorem coupled_plain {value : Value} (h : value.isPlain = true) :
    C.Coupled own (pure value) (pure value) own C.Passes := coupled_pure (.of_isPlain h)

/-- An effect that reads the machine goes on with what it has read. -/
theorem coupled_get_bind {f g : Machine → Effect β} {post : β → Prop}
    (h : ∀ m n, C.rel before m n → C.Coupled before (f m) (g n) after post) :
    C.Coupled before (get >>= f) (get >>= g) after post :=
  fun m n hrel => h m n hrel m n hrel

/-- A change that keeps the machines together. -/
theorem coupled_modify {f g : Machine → Machine}
    (h : ∀ m n, C.rel before m n → C.rel after (f m) (g n)) :
    C.Coupled before (modify f : Effect Unit) (modify g : Effect Unit) after fun _ => True :=
  fun m n hrel => .ok trivial (h m n hrel)

/-! ### Laws -/

/-- How two files that are read or written in both machines compare: none is open, or the results
are the same and the machines belong together with the tables that come out. -/
abbrev SameAccess (C : Coupling) (own : Nat) (m n : Machine) {ρ : Type} :
    Option (ρ × FileTable) → Option (ρ × FileTable) → Prop :=
  Option.Rel fun first second => first.1 = second.1 ∧
    C.rel own { m with files := first.2 } { n with files := second.2 }

/-- How the ends of two started machines compare. -/
inductive SameNested (C : Coupling) (own : Nat) :
    Except LoadError (Outcome Unit × String) × Machine →
      Except LoadError (Outcome Unit × String) × Machine → Prop
  /-- They ended in the same way. -/
  | same {result : Except LoadError (Outcome Unit × String)} {m n : Machine}
      (hrel : C.rel own m n)
      (hunfinished : ∀ text, result = .ok (.unfinished, text) → C.allowed .unfinished) :
      SameNested C own (result, m) (result, n)
  /-- The second one did not end. -/
  | unfinished {first : Except LoadError (Outcome Unit × String) × Machine} {text : String}
      {n : Machine} (hlax : C.lax) : SameNested C own first (.ok (.unfinished, text), n)

/-- Machines that start the same machine, and take over the same from it. -/
theorem sameNested_of_child_eq (hchild : n.child = m.child)
    (hadopt : ∀ inner : Machine, C.rel own (m.adopt inner) (n.adopt inner))
    (hunfinished : C.allowed .unfinished) (path : String) :
    C.SameNested own (m.runNested runner path) (n.runNested runner path) := by
  rw [Machine.runNested, Machine.runNested, hchild]
  rcases m.child.loadFile path with ⟨_ | _, inner⟩
  · exact .same (hadopt inner) fun _ _ => hunfinished
  · exact .same (hadopt _) fun _ _ => hunfinished

/-- The basic changes that effects are made of keep machines together. Machines that are started
are run by the two runners, and faults are raised without a line or on the one given. -/
structure Laws (C : Coupling) (runner other : Runner) (line : Nat) : Prop where
  /-- Fewer values may be taken. -/
  weaken {own more : Nat} {m n : Machine} : own ≤ more → C.rel more m n → C.rel own m n
  /-- Every pointer that is made may be passed on. -/
  pointers : Pointer.Closed C.pointer
  /-- Instructions and operators raise faults on the line. -/
  fault (cause : Cause) : C.allowed (.fault (.onLine cause line))
  /-- Built-in functions and the output stream raise faults without a line. -/
  unlocated (cause : Cause) : C.allowed (.fault (.onLine cause 0))
  /-- The stack. -/
  push {own : Nat} {m n : Machine} {value : Value} : C.rel own m n → C.Passes value →
    C.rel (own + 1) { m with stack := value :: m.stack } { n with stack := value :: n.stack }
  /-- The top of the stack. -/
  pop {own : Nat} {m n : Machine} : C.rel (own + 1) m n →
    m.stack = [] ∧ n.stack = [] ∨
      ∃ value stack stack', m.stack = value :: stack ∧ n.stack = value :: stack' ∧
        C.Passes value ∧ C.rel own { m with stack } { n with stack := stack' }
  /-- Whether there are two values. -/
  height {m n : Machine} : C.rel 2 m n → (n.stack.length < 2 ↔ m.stack.length < 2)
  /-- The variables. -/
  bindings {own : Nat} {m n : Machine} : C.rel own m n →
    n.bindings = m.bindings ∧ ∀ entry ∈ m.bindings, C.Passes entry.2
  /-- Storing in a variable. -/
  store {own : Nat} {m n : Machine} {name : String} {value : Value} : C.rel own m n →
    C.Passes value → C.rel own { m with bindings := Entries.insert name value m.bindings }
      { n with bindings := Entries.insert name value n.bindings }
  /-- The diagnostics. -/
  log {own : Nat} {m n : Machine} {text : String} : C.rel own m n →
    C.rel own (m.logLine text) (n.logLine text)
  /-- The output. -/
  write {own : Nat} {m n : Machine} (texts : List String) : C.rel own m n →
    (n.output.putEach texts).1 = (m.output.putEach texts).1 ∧
      C.rel own { m with output := (m.output.putEach texts).2 }
        { n with output := (n.output.putEach texts).2 }
  /-- The input. -/
  input {own : Nat} {m n : Machine} : C.rel own m n →
    n.input = m.input ∧ n.standardInput = m.standardInput ∧ ∀ input standardInput,
      C.rel own { m with input, standardInput } { n with input, standardInput }
  /-- Freeing. -/
  release {own : Nat} {m n : Machine} {target : Target} : C.rel own m n →
    C.rel own ((Effect.release target).run m).2 ((Effect.release target).run n).2
  /-- Whether a pointer leads somewhere. -/
  isLive {own : Nat} {m n : Machine} {target : Target} : C.rel own m n →
    n.isLive target = m.isLive target
  /-- Reading through a pointer. -/
  dereference {own : Nat} {m n : Machine} {p : Pointer} : C.rel own m n →
    Instruction.dereference n p line = Instruction.dereference m p line
  /-- Closing a file. -/
  close {own : Nat} {m n : Machine} (id : Int) : C.rel own m n →
    (n.files.close id).1 = (m.files.close id).1 ∧
      C.rel own { m with files := (m.files.close id).2 } { n with files := (n.files.close id).2 }
  /-- Reading a file. -/
  read {own : Nat} {m n : Machine} (id : Int) : C.rel own m n →
    C.SameAccess own m n (m.files.read m.folder id) (n.files.read n.folder id)
  /-- Machines that start each other. -/
  depth {own : Nat} {m n : Machine} : C.rel own m n → n.depth = m.depth
  /-- Running a file. -/
  nested {own : Nat} {m n : Machine} (path : String) : C.rel own m n →
    m.depth < Machine.maxDepth → C.SameNested own (m.runNested runner path) (n.runNested other path)

/-- A file that is opened is opened in both machines. -/
def OpensAs (C : Coupling) (mode : OpenMode) : Prop :=
  ∀ {own : Nat} {m n : Machine} (path : String), C.rel own m n →
    n.files = m.files ∧ n.folder = m.folder ∧ ∀ id files folder,
      m.files.openAt m.folder path mode = .ok (id, files, folder) →
        C.rel own { m with files, folder } { n with files, folder }

/-- A text that is written to a file is written in both machines. -/
def WritesFiles (C : Coupling) : Prop :=
  ∀ {own : Nat} {m n : Machine} (id : Int) (text : String), C.rel own m n →
    n.files = m.files ∧ n.folder = m.folder ∧ ∀ result files folder,
      m.files.write m.folder id text = some (result, files, folder) →
        C.rel own { m with files, folder } { n with files, folder }

/-- A request that fits is granted or refused in both machines. -/
def Grants (C : Coupling) {α : Type} (create : Effect (Option α)) (size : Nat) : Prop :=
  ∀ {own : Nat} {m n : Machine}, C.rel own m n → m.fitsHeapLimit size = true →
    C.Ends own (fun _ => True) (create.run m) (create.run n)

/-- Requests for memory and files keep machines together. -/
structure AcquisitionLaws (C : Coupling) : Prop where
  /-- The heap limit and what counts against it are the same. -/
  heap {own : Nat} {m n : Machine} : C.rel own m n →
    n.heapBytes = m.heapBytes ∧ n.settings.heapLimit = m.settings.heapLimit
  /-- Managed objects. -/
  object (tag : String) (size : Nat) : C.Grants (Effect.createObject tag size) size
  /-- Objects of the collector. -/
  collected (size : Nat) : C.Grants (Effect.createCollected size) size
  /-- Raw blocks. -/
  block (size : Nat) : C.Grants (Effect.createBlock size) size
  /-- Files that are opened for reading. -/
  file : C.OpensAs (.ofText "r")

/-- What a built-in function needs beyond the basic changes. -/
structure Admits (C : Coupling) (builtin : Builtin) (arguments : List Value) : Prop where
  /-- Objects are created. -/
  new : builtin = .new → C.AcquisitionLaws
  /-- Files are opened as the second argument says. -/
  openFile : builtin = .openFile →
    C.OpensAs (.ofText ((arguments[1]?.bind Value.text?).getD "r"))
  /-- The second argument is written. -/
  write : builtin = .write → arguments[1]?.isSome = true → C.WritesFiles

/-! ### Basic effects -/

namespace Laws

variable (laws : C.Laws runner other line)

include laws

/-- Machines belong together whatever may be taken. -/
theorem toZero (h : C.rel own m n) : C.rel 0 m n := laws.weaken (Nat.zero_le own) h

/-- An effect may leave fewer values. -/
theorem coupled_weaken {x y : Effect α} {post : α → Prop} (h : C.Coupled before x y middle post)
    (hless : after ≤ middle) : C.Coupled before x y after post := by
  intro m n hrel
  have hends := h m n hrel
  generalize x.run m = first at hends
  generalize y.run n = second at hends
  cases hends with
  | ok hpost hrel => exact .ok hpost (laws.weaken hless hrel)
  | error hallowed hrel => exact .error hallowed hrel
  | unfinished hlax => exact .unfinished hlax

/-- Both effects fail. -/
theorem coupled_fail (cause : Cause) {post : α → Prop} :
    C.Coupled before (Effect.fail (.onLine cause line)) (Effect.fail (.onLine cause line)) after
      post :=
  fun _ _ hrel => .error (laws.fault cause) (laws.toZero hrel)

/-- Both effects fail without a line. -/
theorem coupled_fail_unlocated (cause : Cause) {post : α → Prop} :
    C.Coupled before (Effect.fail (.onLine cause 0)) (Effect.fail (.onLine cause 0)) after post :=
  fun _ _ hrel => .error (laws.unlocated cause) (laws.toZero hrel)

/-- A value that is there, or a failure. -/
theorem coupled_orFail {value : Option α} {cause : Cause} {post : α → Prop}
    (h : ∀ a, value = some a → post a) :
    C.Coupled before (Effect.orFail value (.onLine cause line))
      (Effect.orFail value (.onLine cause line)) before post := by
  cases value with
  | none => exact laws.coupled_fail cause
  | some a => exact coupled_pure (h a rfl)

theorem coupled_log (text : String) :
    C.Coupled before (Effect.log text) (Effect.log text) before fun _ => True :=
  coupled_modify fun _ _ => laws.log

/-- A line in the diagnostics and a result. -/
theorem coupled_log_pure (text : String) {value : Value} (h : C.Passes value) :
    C.Coupled before (Effect.log text >>= fun _ => pure value)
      (Effect.log text >>= fun _ => pure value) before C.Passes :=
  (laws.coupled_log text).bind fun _ _ => coupled_pure h

theorem coupled_push {value : Value} (h : C.Passes value) :
    C.Coupled before (Effect.push value) (Effect.push value) (before + 1) fun _ => True :=
  coupled_modify fun _ _ hrel => laws.push hrel h

/-- Taking a value uses one of those that the machines have in common, and passes it on. -/
theorem coupled_pop? :
    C.Coupled (before + 1) Effect.pop? Effect.pop? before
      fun popped => ∀ value ∈ popped, C.Passes value := by
  intro m n hrel
  rcases laws.pop hrel with ⟨hm, hn⟩ | ⟨value, stack, stack', hm, hn, hvalue, hafter⟩
  · rw [Effect.run_pop?_nil hm, Effect.run_pop?_nil hn]
    exact .ok (fun _ h => by cases h) (laws.weaken (Nat.le_succ before) hrel)
  · rw [Effect.run_pop?_cons hm, Effect.run_pop?_cons hn]
    exact .ok (fun _ h => Option.some.inj h ▸ hvalue) hafter

theorem coupled_popOr (cause : Cause) :
    C.Coupled (before + 1) (Effect.popOr (.onLine cause line)) (Effect.popOr (.onLine cause line))
      before C.Passes :=
  laws.coupled_pop?.bind fun _ hpopped => laws.coupled_orFail hpopped

/-- Texts that are written one after the other are accepted or refused in both machines. -/
theorem coupled_output {write : Sink → Except String Unit × Sink} {texts : List String}
    (h : ∀ sink : Sink, write sink = sink.putEach texts) :
    C.Coupled before (Effect.output write) (Effect.output write) before fun _ => True := by
  intro m n hrel
  obtain ⟨hsame, hafter⟩ := laws.write texts hrel
  rw [← h, ← h] at hsame hafter
  rcases hm : write m.output with ⟨reason | _, sink⟩
  · have hn : write n.output = (.error reason, (write n.output).2) :=
      Prod.ext (hsame.trans (by rw [hm])) rfl
    rw [Effect.run_output_refused hm, Effect.run_output_refused hn]
    rw [hm] at hafter
    exact .error (laws.unlocated _) (laws.toZero hafter)
  · have hn : write n.output = (.ok (), (write n.output).2) :=
      Prod.ext (hsame.trans (by rw [hm])) rfl
    rw [Effect.run_output hm, Effect.run_output hn]
    rw [hm] at hafter
    exact .ok trivial hafter

/-- A line that is written is taken or refused by both. -/
theorem coupled_writeLine (text : String) :
    C.Coupled before (Effect.writeLine text) (Effect.writeLine text) before fun _ => True :=
  laws.coupled_output fun _ => rfl

theorem coupled_readLine :
    C.Coupled before Effect.readLine Effect.readLine before fun _ => True := by
  intro m n hrel
  obtain ⟨hinput, hstandard, hset⟩ := laws.input hrel
  rw [Effect.readLine, Effect.run_get_bind, Effect.run_get_bind, hinput, hstandard]
  exact .ok trivial (hset _ _)

theorem coupled_release (target : Target) :
    C.Coupled before (Effect.release target) (Effect.release target) before fun _ => True :=
  fun _ _ hrel => .ok trivial (laws.release hrel)

/-! ### Built-in functions -/

/-- A file that is run is run in both machines, and what it wrote is written to both. -/
theorem coupled_runFile (path : String) :
    C.Coupled own (Builtin.runFile runner path) (Builtin.runFile other path) own C.Passes := by
  intro m n hrel
  rw [Builtin.runFile, Builtin.runFile, Effect.run_get_bind, Effect.run_get_bind, laws.depth hrel]
  split
  · exact laws.coupled_log_pure _ (.of_isPlain rfl) m n hrel
  next hdepth =>
    have hnested := laws.nested path hrel (Nat.lt_of_not_le hdepth)
    generalize m.runNested runner path = first at hnested
    generalize n.runNested other path = second at hnested
    have hput : ∀ (text : String) (value : Value), value.isPlain = true →
        C.Coupled own (do Effect.output fun sink => sink.put text; return value)
          (do Effect.output fun sink => sink.put text; return value) own C.Passes :=
      fun text value hvalue =>
        (laws.coupled_output fun sink => sink.put_eq_putEach text).bind fun _ _ =>
          coupled_pure (.of_isPlain hvalue)
    cases hnested with
    | @same result m n hrel hunfinished =>
      obtain error | ⟨outcome, text⟩ := result
      · exact .ok (.of_isPlain rfl) (laws.log hrel)
      · cases outcome with
        | unfinished => exact .error (hunfinished text rfl) (laws.toZero hrel)
        | done => exact hput text _ rfl m n hrel
        | failed => exact hput text _ rfl m n hrel
    | unfinished hlax => exact .unfinished hlax

/-- A file that is opened gives an ordinary pointer. -/
theorem coupled_openPath {mode : String} (hmode : C.OpensAs (.ofText mode)) (path : String) :
    C.Coupled own (Builtin.openPath path mode) (Builtin.openPath path mode) own C.Passes := by
  intro m n hrel
  obtain ⟨hfiles, hfolder, hopened⟩ := hmode path hrel
  rw [Builtin.openPath, Effect.run_get_bind, Effect.run_get_bind, hfiles, hfolder]
  cases hresult : m.files.openAt m.folder path (.ofText mode) with
  | ok opened =>
    obtain ⟨id, files, folder⟩ := opened
    exact .ok (.of_pointer (laws.pointers.plain ..)) (hopened id files folder hresult)
  | error _ =>
    exact laws.coupled_log_pure _ (.of_pointer (laws.pointers.plain ..)) m n hrel

/-- Closing a file gives the same answer on both. -/
theorem coupled_closeFile (handle : Option Int) :
    C.Coupled own (Builtin.closeFile handle) (Builtin.closeFile handle) own C.Passes := by
  cases handle with
  | none => exact laws.coupled_log_pure _ (.of_isPlain rfl)
  | some id =>
    intro m n hrel
    obtain ⟨hopen, hafter⟩ := laws.close id hrel
    rw [Builtin.closeFile, Effect.run_get_bind, Effect.run_get_bind]
    dsimp only
    rw [hopen, Effect.run_set_bind, Effect.run_set_bind]
    split
    · exact coupled_pure (.of_isPlain rfl) _ _ hafter
    · exact laws.coupled_log_pure _ (.of_isPlain rfl) _ _ hafter

/-- There is nothing to write without content. -/
theorem coupled_writeFile (handle : Option Int) (content : Option Value)
    (hwrites : content.isSome = true → C.WritesFiles) :
    C.Coupled own (Builtin.writeFile handle content) (Builtin.writeFile handle content) own
      C.Passes := by
  intro m n hrel
  rw [Builtin.writeFile, Effect.run_get_bind, Effect.run_get_bind]
  cases handle with
  | none => exact laws.coupled_log_pure _ (.of_isPlain rfl) m n hrel
  | some id =>
    cases content with
    | none => exact laws.coupled_log_pure _ (.of_isPlain rfl) m n hrel
    | some value =>
      obtain ⟨hfiles, hfolder, hwritten⟩ := hwrites rfl id value.text hrel
      simp only [Option.bind_eq_bind, Option.bind_some]
      rw [hfiles, hfolder]
      rcases hresult : m.files.write m.folder id value.text with
        _ | ⟨error | count, files, folder⟩
      · exact laws.coupled_log_pure _ (.of_isPlain rfl) m n hrel
      · exact laws.coupled_log_pure _ (.of_isPlain rfl) _ _ (hwritten _ _ _ hresult)
      · exact .ok (.of_isPlain rfl) (hwritten _ _ _ hresult)

/-- So does reading one. -/
theorem coupled_readFile (handle : Option Int) :
    C.Coupled own (Builtin.readFile handle) (Builtin.readFile handle) own C.Passes := by
  intro m n hrel
  rw [Builtin.readFile, Effect.run_get_bind, Effect.run_get_bind]
  cases handle with
  | none => exact laws.coupled_log_pure _ (.of_isPlain rfl) m n hrel
  | some id =>
    have hread := laws.read id hrel
    simp only [Option.bind_some]
    generalize m.files.read m.folder id = first at hread
    generalize n.files.read n.folder id = second at hread
    cases hread with
    | none => exact laws.coupled_log_pure _ (.of_isPlain rfl) m n hrel
    | @some first second h =>
      obtain ⟨result, files⟩ := first
      obtain ⟨result', files'⟩ := second
      obtain ⟨hresult, hafter⟩ := h
      dsimp only at hresult hafter ⊢
      subst hresult
      cases result with
      | ok text => exact .ok (.of_isPlain rfl) hafter
      | error _ => exact laws.coupled_log_pure _ (.of_isPlain rfl) _ _ hafter

/-- A request that is refused gives a pointer to null. -/
theorem coupled_newObject (hacquires : C.AcquisitionLaws) (argument : Value) :
    C.Coupled own (Builtin.newObject argument) (Builtin.newObject argument) own C.Passes := by
  intro m n hrel
  have hpointer : ∀ target tag, C.Passes (.pointer { target, tag }) := fun target tag =>
    .of_pointer (laws.pointers.plain target tag false)
  obtain ⟨hbytes, hlimit⟩ := hacquires.heap hrel
  rw [Builtin.newObject, Effect.run_get_bind, Effect.run_get_bind]
  have hsame : ∀ size, n.fitsHeapLimit size = m.fitsHeapLimit size := by
    intro size
    rw [Machine.fitsHeapLimit, Machine.fitsHeapLimit, hbytes, hlimit]
  rw [hsame]
  split
  · exact laws.coupled_log_pure _ (hpointer _ _) m n hrel
  next hfits =>
    refine (hacquires.object _ _ hrel (by simpa using hfits)).bind fun id _ => ?_
    cases id <;> exact coupled_pure (hpointer _ _)

/-- Built-in functions keep machines together, and pass on only what they are given or make. -/
theorem coupled_call {builtin : Builtin} {arguments : List Value}
    (hadmits : C.Admits builtin arguments) (h : ∀ argument ∈ arguments, C.Passes argument) :
    C.Coupled own (builtin.call runner arguments) (builtin.call other arguments) own C.Passes := by
  have hpointer : ∀ target tag, C.Passes (.pointer { target, tag }) := fun target tag =>
    .of_pointer (laws.pointers.plain target tag false)
  cases builtin
  -- The functions that make pointers, and those that copy their arguments.
  case new =>
    simp only [Builtin.call]
    split
    · exact laws.coupled_newObject (hadmits.new rfl) _
    · exact coupled_pure (hpointer _ _)
  case openFile =>
    simp only [Builtin.call]
    split
    · exact laws.coupled_openPath (hadmits.openFile rfl) _
    · exact coupled_pure (hpointer _ _)
  case append => exact coupled_pure (Value.all_appended h)
  case dictAppend => exact coupled_pure (Value.all_extended h)
  case list => exact coupled_pure (.of_items h)
  case dict => exact coupled_pure (Value.all_pairs h)
  -- The functions that change the machine and return something plain.
  case print => exact (laws.coupled_writeLine _).bind fun _ _ => coupled_plain rfl
  case input => exact laws.coupled_readLine.bind fun _ _ => coupled_plain rfl
  case run =>
    simp only [Builtin.call]
    split
    · exact laws.coupled_runFile _
    · exact laws.coupled_log_pure _ (.of_isPlain rfl)
  case close => exact laws.coupled_closeFile _
  case write => exact laws.coupled_writeFile _ _ (hadmits.write rfl)
  case read => exact laws.coupled_readFile _
  case raise => exact laws.coupled_fail_unlocated _
  case del =>
    simp only [Builtin.call]
    split
    · exact coupled_plain rfl
    · split
      · exact (laws.coupled_release _).bind fun _ _ => coupled_plain rfl
      · exact coupled_plain rfl
  case deref =>
    simp only [Builtin.call]
    split
    next pointer _ =>
      refine coupled_get_bind fun m n hrel => ?_
      rw [laws.isLive hrel]
      split <;> exact coupled_plain rfl
    · exact coupled_plain rfl
  -- The functions that only compute something plain.
  case bs =>
    simp only [Builtin.call]
    split <;> exact coupled_plain rfl
  case type => exact coupled_plain rfl
  all_goals
    refine coupled_plain ?_
    simp only [Value.toInt, Value.toFloat, Value.toText, Value.toTruth, Value.toHash,
      Value.absolute, Value.power, Value.length, Value.subtext]
    split <;> rfl

end Laws

end Coupling

end StackMachine
