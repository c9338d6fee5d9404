import EcmaScript.Concrete.Region
import EcmaScript.Lowering.Parameter
import EcmaScript.Lowering.Scope

/-!
# What encloses a place

Where a jump leads and which private names are visible depends on the statements, functions and class bodies
around a place. Here they are a list, innermost first, and the questions are asked of the list: which labelled
statement a jump can reach, whether a loop is in reach, which class bodies declare a name.

While a construct is lowered the same is kept in `Scopes`, in counters and tables that are updated on the way.
`Scopes.around` is the state of these tables inside a list of enclosures, and each question has the same answer
from both (`Scopes.findLabel?_around` and the lemmas beside it).

## Contents

* `Enclosure`: what can enclose a place.
* `Enclosure.reach`, `Enclosure.labelled?`, `Enclosure.inLoop`, `Enclosure.inBreakable`: what a jump asks.
* `Enclosure.inClass`, `Enclosure.declares`: what a private name asks.
* `Enclosure.inGenerator`, `Enclosure.deniesAwait`: what `yield` and `await` ask.
* `Scopes.around`: the tables at a place, with the answer to each question.
-/

namespace EcmaScript

/-- What can enclose a place. -/
inductive Enclosure where
  /-- A function, a static block or the value of a field, which no jump crosses. -/
  | boundary (kind : Boundary) (isGenerator isAsync : Bool)
  | loopBody
  /-- The cases of a switch. -/
  | switchBody
  | labelled (label : String) (body : Statement)
  | classBody (members : List ClassMember)

namespace Enclosure

def isBoundary : Enclosure → Bool
  | boundary .. => true
  | _ => false

def isLoop : Enclosure → Bool
  | loopBody => true
  | _ => false

/-- Whether an unlabelled `break` can leave it. -/
def isBreakable : Enclosure → Bool
  | loopBody | switchBody => true
  | _ => false

/-- The body of a statement with the label. -/
def bodyOf? (name : String) : Enclosure → Option Statement
  | labelled label body => if label = name then some body else none
  | _ => none

def isClassBody : Enclosure → Bool
  | classBody _ => true
  | _ => false

/-- Whether it is a class body with a field or method of the private name. -/
def declaresName (name : String) : Enclosure → Bool
  | classBody members => members.any fun member => Lowering.privateName? member == some name
  | _ => false

/-! ## Jumps -/

/-- The enclosures that a jump can reach. -/
def reach (es : List Enclosure) : List Enclosure := es.takeWhile fun e => !e.isBoundary

/-- The body of the outermost statement with the label that a jump can reach. -/
def labelled? (name : String) (es : List Enclosure) : Option Statement :=
  ((reach es).filterMap (bodyOf? name)).getLast?

/-- Whether a jump can reach a loop. -/
def inLoop (es : List Enclosure) : Bool := (reach es).any isLoop

/-- Whether a jump can reach a loop or a switch. -/
def inBreakable (es : List Enclosure) : Bool := (reach es).any isBreakable

/-! ## Private names -/

/-- Whether there is a class body at all. -/
def inClass (es : List Enclosure) : Bool := es.any isClassBody

/-- Whether a class body declares the private name. -/
def declares (name : String) (es : List Enclosure) : Bool := es.any (declaresName name)

/-! ## The innermost function -/

/-- Whether the innermost boundary is a generator. -/
def inGenerator : List Enclosure → Bool
  | [] => false
  | boundary _ isGenerator _ :: _ => isGenerator
  | _ :: es => inGenerator es

/-- Whether the innermost boundary is none of an asynchronous function. -/
def deniesAwait : List Enclosure → Bool
  | [] => false
  | boundary kind _ isAsync :: _ => !isAsync && kind != .script
  | _ :: es => deniesAwait es

/-! ## From the inside out -/

section Cons

variable (name : String) (e : Enclosure) (es : List Enclosure)

theorem reach_cons : reach (e :: es) = if e.isBoundary then [] else e :: reach es := by
  unfold reach
  cases h : e.isBoundary <;> simp [h]

/-- Of two statements with one label the outer one counts. -/
theorem labelled?_cons : labelled? name (e :: es) =
    if e.isBoundary then none else (labelled? name es).or (e.bodyOf? name) := by
  unfold labelled?
  rw [reach_cons]
  cases h : e.isBoundary with
  | true => rfl
  | false =>
      cases hb : e.bodyOf? name with
      | none => simp [hb]
      | some body =>
          rw [if_neg Bool.false_ne_true, if_neg Bool.false_ne_true, List.filterMap_cons_some hb, List.getLast?_cons]
          cases ((reach es).filterMap (bodyOf? name)).getLast? <;> rfl

theorem inLoop_cons : inLoop (e :: es) = (!e.isBoundary && (e.isLoop || inLoop es)) := by
  unfold inLoop
  rw [reach_cons]
  cases h : e.isBoundary <;> simp

theorem inBreakable_cons : inBreakable (e :: es) = (!e.isBoundary && (e.isBreakable || inBreakable es)) := by
  unfold inBreakable
  rw [reach_cons]
  cases h : e.isBoundary <;> simp

end Cons

end Enclosure

/-! ## The tables of lowering -/

namespace Scopes

open Enclosure

/-- Enters a label. One that is in scope already stays as it is. -/
def enterLabel (label : Label) (s : Scopes) : Scopes :=
  match s.findLabel? label.name with
  | some _ => s
  | none => s.pushLabel label

/-- The scopes inside a list of enclosures. -/
def around : List Enclosure → Scopes
  | [] => .script
  | .boundary kind isGenerator isAsync :: es => (around es).enterFunction kind isGenerator isAsync
  | .loopBody :: es => (around es).enterLoop
  | .switchBody :: es => (around es).enterSwitch
  | .labelled label body :: es => (around es).enterLabel ⟨label, body.labelsLoop⟩
  | .classBody members :: es => (around es).enterClass (Lowering.privateNames members)

/-! ### A label changes the table of labels only -/

section Label

variable (label : Label) (s : Scopes)

/-- What the table of labels does not enter into is the same inside a label. -/
theorem congr_enterLabel {α : Type} (answer : Scopes → α) (h : answer (s.pushLabel label) = answer s) :
    answer (s.enterLabel label) = answer s := by
  unfold enterLabel
  split
  · rfl
  · exact h

/-- A label is found under its name, unless it was in scope already. -/
theorem findLabel?_enterLabel (name : String) : (s.enterLabel label).findLabel? name =
    (s.findLabel? name).or (if label.name = name then some label else none) := by
  unfold enterLabel
  by_cases h : label.name = name
  · subst h
    cases hf : s.findLabel? label.name with
    | some found => simp [hf]
    | none => simp [findLabel?, pushLabel, onFunction]
  · rw [if_neg h, Option.or_none]
    cases s.findLabel? label.name with
    | some found => rfl
    | none => simp [findLabel?, pushLabel, onFunction, h]

@[simp] theorem inLoop_enterLabel : (s.enterLabel label).inLoop = s.inLoop :=
  congr_enterLabel label s inLoop rfl

@[simp] theorem inBreakable_enterLabel : (s.enterLabel label).inBreakable = s.inBreakable :=
  congr_enterLabel label s inBreakable rfl

@[simp] theorem classes_enterLabel : (s.enterLabel label).classes = s.classes :=
  congr_enterLabel label s classes rfl

@[simp] theorem isGenerator_enterLabel :
    (s.enterLabel label).function.isGenerator = s.function.isGenerator :=
  congr_enterLabel label s (·.function.isGenerator) rfl

@[simp] theorem awaitContext_enterLabel : (s.enterLabel label).awaitContext = s.awaitContext :=
  congr_enterLabel label s awaitContext rfl

end Label

/-! ### The answers -/

variable (name : String) (es : List Enclosure)

/-- **Labels**: the table holds, for each name, the outermost statement in reach. -/
theorem findLabel?_around : (around es).findLabel? name =
    (labelled? name es).map fun body => ⟨name, body.labelsLoop⟩ := by
  induction es with
  | nil => rfl
  | cons e es ih =>
      rw [labelled?_cons]
      cases e with
      | boundary kind isGenerator isAsync => rfl
      | labelled label body =>
          show ((around es).enterLabel _).findLabel? name = ((labelled? name es).or (if label = name then _ else _)).map _
          rw [findLabel?_enterLabel, ih]
          by_cases h : label = name
          · subst h
            rw [if_pos rfl, if_pos rfl]
            cases labelled? label es <;> rfl
          · rw [if_neg h, if_neg h, Option.or_none, Option.or_none]
      | loopBody | switchBody | classBody members =>
          exact ih.trans (congrArg (Option.map _) Option.or_none.symm)

/-- **Loops**: the counter is positive where a loop is in reach. -/
theorem inLoop_around : (around es).inLoop = Enclosure.inLoop es := by
  induction es with
  | nil => rfl
  | cons e es ih =>
      rw [inLoop_cons, ← ih]
      cases e with
      | labelled label body => exact inLoop_enterLabel _ (around es)
      | loopBody => exact decide_eq_true (Nat.succ_pos _)
      | _ => rfl

theorem inBreakable_around : (around es).inBreakable = Enclosure.inBreakable es := by
  induction es with
  | nil => rfl
  | cons e es ih =>
      rw [inBreakable_cons, ← ih]
      cases e with
      | labelled label body => exact inBreakable_enterLabel _ (around es)
      | loopBody | switchBody => exact decide_eq_true (Nat.succ_pos _)
      | _ => rfl

/-- **Classes**: there is a table for each class body. -/
theorem inClass_around : (around es).inClass = Enclosure.inClass es := by
  induction es with
  | nil => rfl
  | cons e es ih =>
      unfold Enclosure.inClass at ih ⊢
      rw [List.any_cons, ← ih]
      unfold inClass
      cases e with
      | labelled label body => exact congrArg (!·.isEmpty) (classes_enterLabel _ (around es))
      | _ => rfl

theorem contains_privateNames (members : List ClassMember) :
    (Lowering.privateNames members).contains name =
      members.any fun member => Lowering.privateName? member == some name := by
  rw [Bool.eq_iff_iff]
  simp [Lowering.privateNames]

/-- **Private names**: the tables hold the names that the class bodies declare. -/
theorem declaresPrivate_around : (around es).declaresPrivate name = declares name es := by
  induction es with
  | nil => rfl
  | cons e es ih =>
      unfold declares at ih ⊢
      rw [List.any_cons, ← ih]
      unfold declaresPrivate
      cases e with
      | labelled label body => exact congrArg (·.any (·.contains name)) (classes_enterLabel ⟨label, body.labelsLoop⟩ (around es))
      | classBody members =>
          show (Lowering.privateNames members :: (around es).classes).any _ = _
          rw [List.any_cons, contains_privateNames]
          rfl
      | _ => rfl

theorem isGenerator_around : (around es).function.isGenerator = inGenerator es := by
  induction es with
  | nil => rfl
  | cons e es ih =>
      cases e with
      | boundary kind isGenerator isAsync => rfl
      | labelled label body => exact (isGenerator_enterLabel _ (around es)).trans ih
      | loopBody | switchBody | classBody members => exact ih

theorem awaitContext_around (h : deniesAwait es = true) : (around es).awaitContext = .denied := by
  induction es with
  | nil => cases h
  | cons e es ih =>
      cases e with
      | boundary kind isGenerator isAsync =>
          obtain ⟨ha, hk⟩ := Bool.and_eq_true_iff.mp h
          show (if isAsync = true then AwaitContext.allowed else if kind = .script then .topLevel else .denied) = _
          rw [if_neg (by simpa using ha), if_neg (by simpa using hk)]
      | labelled label body => exact (awaitContext_enterLabel _ (around es)).trans (ih h)
      | loopBody | switchBody | classBody members => exact ih h

end Scopes

end EcmaScript
