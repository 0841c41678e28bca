import Scriptlet.Proofs.Escape.Expressions
import Scriptlet.Proofs.Kinds
import Scriptlet.Proofs.Program.Running

/-
  Malformed statements.

  A statement is found to be malformed where the malformed part is come to, and not before: names are
  imported one after the other, the right side of an assignment is evaluated before its target is read,
  and the targets of a tuple are assigned one after the other. So a malformed statement does what its
  sound part does, the part in front of the malformed one, and then it stops with a syntax error.

  What is proved:
    1. `Breaks` — for each way to be malformed, the sound part and the error. Where the form of an import,
       an empty side or the right side is malformed, there is no sound part.
    2. `simpleLine_malformed` — a malformed line has a sound part, and it is executed as that part and then
       stops with a syntax error.
    3. `not_malformed_unchanged` — a line whose target is malformed writes a line of output all the same.
-/

namespace Scriptlet

open Engine (room)

/-- What a value can be bound to: a name, or a place in a container. -/
def Expr.isPlace : Expr → Bool
  | .name _ _ | .subscript _ _ _ => true
  | _ => false

/-- Whether the expression is a constant. -/
def Expr.isLiteral : Expr → Bool
  | .literal _ _ => true
  | _ => false

/-- What an import can list. -/
def Text.isImportable (name : Text) : Bool := name == "*" || name.isIdentifier

namespace Line

/-- The line is malformed as a statement. Its target is read with so many levels, and its right side
with what is left of them where it is evaluated. -/
inductive IsMalformed (levels : Nat) (line : Text) : Prop
  /-- An import in neither form. -/
  | form : (Text.startsWithWord "import" line || Text.startsWithWord "from" line) = true →
    (Text.dropStart? "import" line).bind importedModule? = none →
    (Text.dropStart? "from" line).bind importedNames? = none → IsMalformed levels line
  /-- An import that lists what is no name. -/
  | listed {module name : Text} {names : List Text} :
    readStatement line = .ok (.importNames module names) → name ∈ names →
    name.isImportable = false → IsMalformed levels line
  | empty {target operator expression : Text} :
    readStatement line = .ok (.assign target operator expression) →
    (target.isEmpty || expression.isEmpty) = true → IsMalformed levels line
  /-- An assignment of what is no expression. -/
  | right {target operator expression : Text} {e : ScriptError} :
    readStatement line = .ok (.assign target operator expression) → 2 < levels →
    Evaluation.read (levels - 3) (assignedText target operator expression).trim =
      .error (.error e) → IsMalformed levels line
  /-- An assignment to what is no expression. -/
  | target {target operator expression : Text} {e : ScriptError} :
    readStatement line = .ok (.assign target operator expression) →
    Evaluation.read levels target = .error (.error e) → IsMalformed levels line
  /-- An assignment to what is neither a place nor a tuple. -/
  | place {target operator expression : Text} {e : Expr} :
    readStatement line = .ok (.assign target operator expression) →
    Evaluation.read levels target = .ok e → e.isPlace = false →
    (∀ span items, e ≠ .tuple span items) → IsMalformed levels line
  /-- An operator with several targets. -/
  | augmented {target operator expression : Text} {span : Span} {items : List Expr} :
    readStatement line = .ok (.assign target operator expression) → (operator != "=") = true →
    Evaluation.read levels target = .ok (.tuple span items) → IsMalformed levels line
  /-- An assignment to a tuple, one part of which is no place. -/
  | part {target operator expression : Text} {span : Span} {items : List Expr} {item : Expr} :
    readStatement line = .ok (.assign target operator expression) →
    Evaluation.read levels target = .ok (.tuple span items) → item ∈ items →
    item.isPlace = false → IsMalformed levels line

end Line

/-! ## Sound parts -/

namespace Program

open Execution

variable (limits : Limits) (levels : Nat)

/-- The value that an assignment assigns. -/
def right (target operator expression : Text) : Run Value :=
  ((room limits levels).below 2).evaluate (assignedText target operator expression)

/-- Assigns the elements of a value to the first parts of a tuple of `count` parts. -/
def assignFirst (target : Text) (count : Nat) (parts : List Expr) (v : Value) : Run Unit := do
  let values ← Run.look fun h => h.unpack (levels / 2) v count
  for (item, v) in parts.zip values do
    Evaluation.assign ((room limits levels).below 4) target.trim item v

/-- The sound part of a malformed line, and the error that the line stops with behind it. -/
inductive Breaks (line : Text) : Run Unit → ScriptError → Prop
  | form : (Text.startsWithWord "import" line || Text.startsWithWord "from" line) = true →
    (Text.dropStart? "import" line).bind Line.importedModule? = none →
    (Text.dropStart? "from" line).bind Line.importedNames? = none →
    Breaks line (pure ()) ⟨.badSyntax, "invalid import syntax: " ++ line, none⟩
  /-- The names in front of the first one that is none are imported. -/
  | listed {module name : Text} {front behind : List Text} :
    Line.readStatement line = .ok (.importNames module (front ++ name :: behind)) →
    (∀ other ∈ front, other.isImportable = true) → name.isImportable = false →
    Breaks line (statement limits (room limits levels) line (.importNames module front))
      ⟨.badSyntax, "invalid import syntax: " ++ line, none⟩
  | empty {target operator expression : Text} :
    Line.readStatement line = .ok (.assign target operator expression) →
    (target.isEmpty || expression.isEmpty) = true →
    Breaks line (pure ())
      ⟨.badSyntax, "invalid assignment: " ++ target ++ " " ++ operator ++ " " ++ expression, none⟩
  | right {target operator expression : Text} {e : ScriptError} :
    Line.readStatement line = .ok (.assign target operator expression) →
    (target.isEmpty || expression.isEmpty) = false → 2 < levels →
    Evaluation.read (levels - 3) (assignedText target operator expression).trim = .error (.error e) →
    Breaks line (pure ()) e
  /-- The right side is evaluated before the target is read. -/
  | target {target operator expression : Text} {e : ScriptError} :
    Line.readStatement line = .ok (.assign target operator expression) →
    (target.isEmpty || expression.isEmpty) = false →
    Evaluation.read levels target = .error (.error e) →
    Breaks line (do let _ ← right limits levels target operator expression)
      ⟨.badSyntax, "cannot assign to " ++ target, none⟩
  | place {target operator expression : Text} {e : Expr} :
    Line.readStatement line = .ok (.assign target operator expression) →
    (target.isEmpty || expression.isEmpty) = false →
    Evaluation.read levels target = .ok e → e.isPlace = false →
    (∀ span items, e ≠ .tuple span items) →
    Breaks line (do let _ ← right limits levels target operator expression)
      ⟨.badSyntax, "cannot assign to " ++ e.source target.trim, target.trim⟩
  | augmented {target operator expression : Text} {span : Span} {items : List Expr} :
    Line.readStatement line = .ok (.assign target operator expression) →
    (target.isEmpty || expression.isEmpty) = false → (operator != "=") = true →
    Evaluation.read levels target = .ok (.tuple span items) →
    Breaks line (do let _ ← right limits levels target operator expression)
      ⟨.badSyntax, "illegal target for augmented assignment: " ++ target, none⟩
  /-- The parts in front of the first one that is no place are assigned to. -/
  | part {target operator expression : Text} {span : Span} {front behind : List Expr} {item : Expr} :
    Line.readStatement line = .ok (.assign target operator expression) →
    (target.isEmpty || expression.isEmpty) = false → (operator != "=") = false →
    Evaluation.read levels target = .ok (.tuple span (front ++ item :: behind)) →
    (∀ other ∈ front, other.isPlace = true) → item.isPlace = false →
    Breaks line (do
        let v ← right limits levels target operator expression
        assignFirst limits levels target (front ++ item :: behind).length front v)
      ⟨.badSyntax, "cannot assign to " ++ item.source target.trim, target.trim⟩

end Program

/-! ## Lists with a first bad element -/

/-- A list that does not consist of good elements only has a first bad one. -/
theorem List.exists_first_bad {α : Type} {p : α → Bool} {items : List α} {item : α}
    (hitem : item ∈ items) (hbad : p item = false) :
    ∃ front bad behind, items = front ++ bad :: behind ∧ (∀ other ∈ front, p other = true) ∧
      p bad = false := by
  induction items with
  | nil => cases hitem
  | cons first rest ih =>
    cases hfirst : p first with
    | false => exact ⟨[], first, rest, rfl, fun _ h => absurd h List.not_mem_nil, hfirst⟩
    | true =>
      rcases List.mem_cons.mp hitem with rfl | hrest
      · rw [hbad] at hfirst
        cases hfirst
      · obtain ⟨front, bad, behind, rfl, hfront, hbad⟩ := ih hrest
        exact ⟨first :: front, bad, behind, rfl, List.forall_mem_cons.mpr ⟨hfirst, hfront⟩, hbad⟩

namespace Run

variable {α β : Type}

/-- Trying something for all elements stops at the first one that it fails for. -/
theorem forIn_append_throw (front behind : List α) {bad : α} {f : α → Run Unit} {fault : Fault}
    (hbad : f bad = throw fault) :
    (forIn (front ++ bad :: behind) PUnit.unit fun a _ => do
        f a
        pure (ForInStep.yield PUnit.unit)) =
      (do
        forIn front PUnit.unit fun a _ => do
          f a
          pure (ForInStep.yield PUnit.unit)
        throw fault) := by
  induction front with
  | nil =>
    rw [List.nil_append, List.forIn_cons, hbad]
    rfl
  | cons a front ih =>
    rw [List.cons_append, List.forIn_cons, List.forIn_cons]
    simp only [bind_assoc, pure_bind, ih]

end Run

/-- Taking a value apart gives as many elements as are asked for. -/
theorem Heap.length_unpack {h : Heap} {levels count : Nat} {v : Value} {values : List Value}
    (hvalues : h.unpack levels v count = .ok values) : values.length = count := by
  have hrefused : ∀ {x : Except Fault Text} {f : Text → Fault},
      (x >>= fun t => throw (f t) : Except Fault (List Value)) ≠ .ok values := by
    intro x f
    cases x <;> exact fun h => (by cases h)
  unfold unpack at hvalues
  obtain ⟨k, -, hvalues⟩ := bind_ok hvalues
  cases v with
  | list r | tuple r =>
    simp only at hvalues
    split at hvalues
    · cases hvalues
      rename_i hsize
      exact hsize
    · exact absurd hvalues hrefused
  | _ => exact absurd hvalues hrefused

/-! ## Reading -/

namespace Line

variable {line : Text}

theorem readStatement_of_form
    (hword : (Text.startsWithWord "import" line || Text.startsWithWord "from" line) = true)
    (hmodule : (Text.dropStart? "import" line).bind importedModule? = none)
    (hnames : (Text.dropStart? "from" line).bind importedNames? = none) :
    readStatement line = .error (.badSyntax ("invalid import syntax: " ++ line)) := by
  have hpass : (line == Text.ofString "pass") = false := by
    rw [beq_eq_false_iff_ne]
    rintro rfl
    cases hword
  unfold readStatement
  rw [hpass, hword]
  unfold readImport
  rw [hmodule, hnames]
  rfl

end Line

namespace Execution

variable {limits : Limits} {levels : Nat} {target operator expression line name : Text} {v : Value}
  {isAugmented : Bool} {e : Expr}

theorem importName_refused (l : Library) (hname : name.isImportable = false) :
    importName line l name = throw (.badSyntax ("invalid import syntax: " ++ line)) := by
  obtain ⟨hstar, hidentifier⟩ := Bool.or_eq_false_iff.mp hname
  unfold importName
  simp only [hstar, hidentifier, Bool.false_eq_true, if_false, Bool.not_false, if_true]

theorem assign_refused {engine : Engine} {text : Text} (he : e.isPlace = false) :
    Evaluation.assign engine text e v =
      throw (.error ⟨.badSyntax, "cannot assign to " ++ e.source text, text⟩) := by
  cases e with
  | name _ _ | subscript _ _ _ => cases he
  | _ => rfl

theorem bindTarget_unread {r : Room} {error : ScriptError}
    (hread : Evaluation.read r.levels target = .error (.error error)) :
    bindTarget r target v isAugmented = throw (.badSyntax ("cannot assign to " ++ target)) := by
  unfold bindTarget
  rw [hread]
  rfl

theorem bindTarget_refused {r : Room} (hread : Evaluation.read r.levels target = .ok e)
    (he : e.isPlace = false) (htuple : ∀ span items, e ≠ .tuple span items) :
    bindTarget r target v isAugmented =
      throw (.error ⟨.badSyntax, "cannot assign to " ++ e.source target.trim, target.trim⟩) := by
  have hrefused : Evaluation.assign (r.below 4) target.trim e v = throw _ := assign_refused he
  unfold bindTarget
  rw [hread, ← hrefused]
  cases e with
  | tuple span items => exact absurd rfl (htuple span items)
  | _ => rfl

theorem bindTarget_augmented {r : Room} {span : Span} {items : List Expr}
    (hread : Evaluation.read r.levels target = .ok (.tuple span items)) :
    bindTarget r target v true =
      throw (.badSyntax ("illegal target for augmented assignment: " ++ target)) := by
  unfold bindTarget
  rw [hread]
  rfl

/-- The parts of a tuple are assigned to one after the other, up to the first one that is no place. -/
theorem bindTarget_part {span : Span} {front behind : List Expr} {item : Expr}
    (hread : Evaluation.read levels target = .ok (.tuple span (front ++ item :: behind)))
    (hitem : item.isPlace = false) :
    bindTarget (room limits levels) target v false = (do
      Program.assignFirst limits levels target (front ++ item :: behind).length front v
      throw (.error ⟨.badSyntax, "cannot assign to " ++ item.source target.trim, target.trim⟩)) := by
  unfold bindTarget Program.assignFirst
  rw [show (room limits levels).levels = levels from rfl, hread]
  refine (pure_bind _ _).trans ?_
  simp only [Bool.false_eq_true, if_false, bind_assoc, pure_bind]
  funext s
  rw [Run.bind_apply, Run.bind_apply]
  have hlook := Run.look_apply s (fun h => h.unpack (levels / 2) v (front ++ item :: behind).length)
  rw [show (room limits levels).printing = levels / 2 from rfl, hlook]
  cases hunpack : s.heap.unpack (levels / 2) v (front ++ item :: behind).length with
  | error fault => rfl
  | ok values =>
    -- There is a value for each part, so the values split where the parts do.
    have hlength := Heap.length_unpack hunpack
    obtain ⟨taken, w, others, rfl, htaken⟩ : ∃ taken w others, values = taken ++ w :: others ∧
        taken.length = front.length := by
      rw [List.length_append, List.length_cons] at hlength
      have hlt : front.length < values.length := by omega
      refine ⟨values.take front.length, values[front.length], values.drop (front.length + 1), ?_,
        List.length_take_of_le (Nat.le_of_lt hlt)⟩
      rw [List.getElem_cons_drop, List.take_append_drop]
    have hzip : (front ++ item :: behind).zip (taken ++ w :: others) =
        front.zip taken ++ (item, w) :: behind.zip others := by
      rw [List.zip_append htaken.symm, List.zip_cons_cons]
    have hfront : front.zip (taken ++ w :: others) = front.zip taken := by
      rw [← List.append_nil front, List.zip_append htaken.symm, List.zip_nil_left, List.append_nil,
        List.append_nil]
    let assignPart (part : Expr × Value) : Run Unit :=
      Evaluation.assign ((room limits levels).below 4) target.trim part.1 part.2
    have hbad : assignPart (item, w) = throw _ := assign_refused hitem
    simp only [hzip, hfront]
    rw [Run.forIn_append_throw (front.zip taken) (behind.zip others) hbad, bind_assoc]
    rfl

end Execution

namespace Program

open Execution

variable {limits : Limits} {levels : Nat} {line target operator expression : Text}

/-- A right side that is no expression is reported before anything is evaluated. -/
theorem right_error {e : ScriptError} (hlevels : 2 < levels)
    (hread : Evaluation.read (levels - 3) (assignedText target operator expression).trim =
      .error (.error e)) :
    right limits levels target operator expression = throw (.error e) := by
  obtain ⟨k, rfl⟩ : ∃ k, levels = k + 3 := ⟨levels - 3, by omega⟩
  obtain ⟨message, rfl⟩ := Evaluation.read_error hread
  rw [Nat.add_sub_cancel] at hread
  show (Engine.tower limits (k + 3) 2).evaluate _ = _
  rw [Engine.tower_below]
  show Evaluation.evaluate (room limits k) _ = _
  unfold Evaluation.evaluate
  show Run.mapFault _ (liftM (Evaluation.read k _) >>= _) = _
  rw [hread]
  rfl

/-- An assignment evaluates its right side and binds the target to it. -/
theorem simpleLine_assign
    (hline : Line.readStatement line = .ok (.assign target operator expression))
    (hsides : (target.isEmpty || expression.isEmpty) = false) :
    simpleLine limits levels line = (do
      let v ← right limits levels target operator expression
      bindTarget (room limits levels) target v (operator != "=")) := by
  unfold simpleLine
  rw [hline]
  exact (pure_bind _ _).trans (assignment_eq hsides)

/-- An import stops at the first name that is none, with the names in front of it imported. -/
theorem simpleLine_listed {module name : Text} {front behind : List Text}
    (hline : Line.readStatement line = .ok (.importNames module (front ++ name :: behind)))
    (hname : name.isImportable = false) :
    simpleLine limits levels line = (do
      statement limits (room limits levels) line (.importNames module front)
      throw (.badSyntax ("invalid import syntax: " ++ line))) := by
  unfold simpleLine
  rw [hline]
  refine (pure_bind _ _).trans ?_
  unfold statement
  simp only [bind_assoc]
  congr 1
  funext l
  have hrefused : importName line l name = throw (.badSyntax ("invalid import syntax: " ++ line)) :=
    importName_refused l hname
  have hloop := Run.forIn_append_throw front behind hrefused
  exact (congrArg (· >>= fun _ => pure ()) hloop).trans (by rw [bind_assoc]; rfl)

/-- What a line breaks with is a syntax error. -/
theorem Breaks.isSyntaxError {sound : Run Unit} {error : ScriptError}
    (h : Breaks limits levels line sound error) : error.kind = .badSyntax := by
  cases h with
  | right _ _ _ hread =>
    obtain ⟨message, rfl⟩ := Evaluation.read_error hread
    rfl
  | _ => rfl

/-- A line that breaks is executed as its sound part and then stops. -/
theorem Breaks.simpleLine_eq {sound : Run Unit} {error : ScriptError}
    (h : Breaks limits levels line sound error) :
    simpleLine limits levels line = (do
      sound
      throw (.error error)) := by
  cases h with
  | form hword hmodule hnames =>
    unfold simpleLine
    rw [Line.readStatement_of_form hword hmodule hnames]
    rfl
  | listed hline _ hname => exact simpleLine_listed hline hname
  | empty hline hsides =>
    unfold simpleLine
    rw [hline]
    refine (pure_bind _ _).trans ?_
    show assignment (room limits levels) _ _ _ = _
    unfold assignment
    rw [if_pos hsides]
    rfl
  | right hline hsides hlevels hread =>
    rw [simpleLine_assign hline hsides, right_error hlevels hread]
    rfl
  | target hline hsides hread =>
    rw [simpleLine_assign hline hsides]
    simp only [bind_assoc, bindTarget_unread (r := room limits levels) hread]
    rfl
  | place hline hsides hread hplace htuple =>
    rw [simpleLine_assign hline hsides]
    simp only [bind_assoc, bindTarget_refused (r := room limits levels) hread hplace htuple]
    rfl
  | augmented hline hsides hoperator hread =>
    rw [simpleLine_assign hline hsides, hoperator]
    simp only [bind_assoc, bindTarget_augmented (r := room limits levels) hread]
    rfl
  | part hline hsides hoperator hread _ hitem =>
    rw [simpleLine_assign hline hsides, hoperator]
    simp only [bind_assoc, bindTarget_part hread hitem]

end Program

namespace Line.IsMalformed

variable {levels : Nat} {line : Text}

/-- A malformed line breaks. -/
theorem breaks (limits : Limits) (h : IsMalformed levels line) :
    ∃ sound error, Program.Breaks limits levels line sound error := by
  -- An empty side comes before whatever else is wrong with an assignment.
  have hassign : ∀ {target operator expression : Text},
      readStatement line = .ok (.assign target operator expression) →
      ((target.isEmpty || expression.isEmpty) = false →
        ∃ sound error, Program.Breaks limits levels line sound error) →
      ∃ sound error, Program.Breaks limits levels line sound error := by
    intro target operator expression hline hrest
    cases hsides : target.isEmpty || expression.isEmpty with
    | true => exact ⟨_, _, .empty hline hsides⟩
    | false => exact hrest hsides
  cases h with
  | form hword hmodule hnames => exact ⟨_, _, .form hword hmodule hnames⟩
  | listed hline hmember hname =>
    obtain ⟨front, bad, behind, rfl, hfront, hbad⟩ := List.exists_first_bad hmember hname
    exact ⟨_, _, .listed hline hfront hbad⟩
  | empty hline hsides => exact ⟨_, _, .empty hline hsides⟩
  | right hline hlevels hread =>
    exact hassign hline fun hsides => ⟨_, _, .right hline hsides hlevels hread⟩
  | target hline hread => exact hassign hline fun hsides => ⟨_, _, .target hline hsides hread⟩
  | place hline hread hplace htuple =>
    exact hassign hline fun hsides => ⟨_, _, .place hline hsides hread hplace htuple⟩
  | augmented hline hoperator hread =>
    exact hassign hline fun hsides => ⟨_, _, .augmented hline hsides hoperator hread⟩
  | @part _ operator _ _ _ _ hline hread hmember hitem =>
    refine hassign hline fun hsides => ?_
    cases hoperator : operator != "=" with
    | true => exact ⟨_, _, .augmented hline hsides hoperator hread⟩
    | false =>
      obtain ⟨front, bad, behind, rfl, hfront, hbad⟩ := List.exists_first_bad hmember hitem
      exact ⟨_, _, .part hline hsides hoperator hread hfront hbad⟩

end Line.IsMalformed

namespace Program

/-- A malformed line has a sound part, and it is executed as that part and then stops with a syntax
error. -/
theorem simpleLine_malformed (limits : Limits) {levels : Nat} {line : Text}
    (h : Line.IsMalformed levels line) :
    (∃ sound error, Breaks limits levels line sound error) ∧
      ∀ sound error, Breaks limits levels line sound error →
        error.kind = .badSyntax ∧
        simpleLine limits levels line = (do
          sound
          throw (.error error)) :=
  ⟨h.breaks limits, fun _ _ hbreaks => ⟨hbreaks.isSyntaxError, hbreaks.simpleLine_eq⟩⟩

/-! ## A malformed line that has an effect -/

theorem readStatement_printing :
    Line.readStatement "1 = print(2)" = .ok (.assign "1" "=" "print(2)") := by
  decide +kernel

/-- A line that assigns what printing gives to a number. -/
theorem isMalformed_printing : Line.IsMalformed 959 "1 = print(2)" := by
  have htest : (Evaluation.read 959 "1").toOption.any Expr.isLiteral = true := by decide +kernel
  obtain ⟨e, hread, hliteral⟩ := Evaluation.exists_read htest
  cases e with
  | literal span c => exact .place readStatement_printing hread rfl fun _ _ => Expr.noConfusion
  | _ => cases hliteral

/-- The line prints before it stops. -/
theorem simpleLine_malformed_printing :
    Line.IsMalformed 959 "1 = print(2)" ∧
      (∃ sound error, Breaks .standard 959 "1 = print(2)" sound error) ∧
      ∀ sound error, Breaks .standard 959 "1 = print(2)" sound error →
        error.kind = .badSyntax ∧
        simpleLine .standard 959 "1 = print(2)" = (do
          sound
          throw (.error error)) :=
  ⟨isMalformed_printing, simpleLine_malformed .standard isMalformed_printing⟩

/-- Not every malformed line leaves the state as it was. -/
theorem not_malformed_unchanged :
    ¬ ∀ (limits : Limits) (levels : Nat) (line : Text) (s : State), Line.IsMalformed levels line →
      ∃ error, error.kind = .badSyntax ∧ simpleLine limits levels line s = .error (.error error) s := by
  intro hclaim
  have hprinted : (Run.final (simpleLine .standard 959 "1 = print(2)" (.initial ⟨0⟩ 0))).output.lines =
      #[Text.ofString "2"] := by
    decide +kernel
  obtain ⟨error, -, herror⟩ := hclaim .standard 959 _ (.initial ⟨0⟩ 0) isMalformed_printing
  rw [herror] at hprinted
  cases hprinted

end Program

end Scriptlet
