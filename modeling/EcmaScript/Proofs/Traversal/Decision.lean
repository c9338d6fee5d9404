import EcmaScript.Proofs.Comment.Walk
import EcmaScript.Proofs.Traversal.Walk
import Mathlib.Logic.Function.Basic

/-!
# Deciding what belongs to a node

The walk over a tree cannot write to the nodes, which are shared with its stack. It keeps what it decides in a table by
the numbers of the nodes, and changes an entry when it takes a comment from the queue. The comments at the end of a
block go to the last child of the block, whose number is known from a second table.

Each step of the walk is a loop that takes comments from the front of the queue. What a step does to the queue, to the
sink and to the entry of its node is what a step of `Attaching` does to the state, and no other entry is touched: this
is `Settles`, and `settles_drain` proves it of a loop from what is done with one comment.

## Contents

* `Attachment`: what is decided for a node.
* `Walker`, `Walker.perform`: the two tables, and what is done at an event.
* `Settles`, `settles_drain`: what a step changes.
* `settles_claim`, `settles_behind`, `settles_endOfBlock`: the comments before a node, behind it and at the end of a
  block.
-/

namespace EcmaScript

/-- What is decided for a node. -/
structure Attachment where
  doc : Option Doc.Info := none
  leading : Option CommentRun := none
  trailing : Option CommentRun := none

namespace Attachment

/-- What is decided about the comments before the node. -/
def claim (a : Attachment) : Attaching.Claim := ⟨a.doc, a.leading⟩

/-- With other comments before the node. -/
def claimed (a : Attachment) (c : Attaching.Claim) : Attachment := { a with doc := c.doc, leading := c.leading }

/-- With other comments behind the node. -/
def trailed (a : Attachment) (trailing : Option CommentRun) : Attachment := { a with trailing }

end Attachment

namespace Attaching

/-- A walk that decides what belongs to each node. -/
structure Walker extends State where
  /-- What is decided, by the number of the node. -/
  decisions : Nat → Option Attachment := fun _ => none
  /-- The number of the last child that was entered, by the number of its parent. -/
  lastChild : Nat → Option Nat := fun _ => none

/-- What a node that is left makes of the comments behind its children. -/
def settleBehind (source : Array Char) (place : NodePlace) (kind : NodeKind) (stop : Nat) :
    Attaching (Option CommentRun) := do
  let run ← settleScript kind
  let run ← settleStatement (place.isStatement kind) stop run
  let _ ← takeWhile fun p => !p.isPlain && p.stop ≤ stop
  settleLine source (place.isStatement kind || place.isListItem) stop run

theorem leave_eq_settleBehind (source : Array Char) (place : NodePlace) (kind : NodeKind) (stop : Nat)
    (children : List Node) (s : State) :
    Attaching.leave source place kind stop children s =
      (((settleBlock kind stop children s).1,
        (settleBehind source place kind stop (settleBlock kind stop children s).2).1),
        (settleBehind source place kind stop (settleBlock kind stop children s).2).2) := by
  rw [leave_eq]
  rfl

namespace Walker

/-! ## Decisions -/

/-- What is decided for the node of a number so far. -/
def decided (w : Walker) (index : Nat) : Attachment := (w.decisions index).getD {}

/-- Changes what is decided for the node of a number. -/
def amend (w : Walker) (index : Nat) (change : Attachment → Attachment) : Walker :=
  { w with decisions := Function.update w.decisions index (some (change (w.decided index))) }

/-- Takes comments from the front of the queue as long as there is something to do with them. -/
def drain (act : PendingComment → Walker → Option Walker) : List PendingComment → Walker → Walker
  | [], w => { w with queue := [] }
  | p :: rest, w =>
    match act p w with
    | none => { w with queue := p :: rest }
    | some w => drain act rest w

/-- What a node does with a comment that ends before it. -/
def claimOne (source : Array Char) (n : Node) (place : NodePlace) (index : Nat) (p : PendingComment) (w : Walker) :
    Option Walker :=
  if n.span.offset < p.stop then none
  else match p.info with
    | some _ =>
      match n.docPolicy place with
      | .defer => none
      | .discard => some w
      | .accept =>
        match readDoc place p w.sink with
        | (doc, sink) => some { w.amend index ({ · with doc }) with sink }
    | none =>
      if n.takesPlain place then
        let isInline := !hasLineBreak source p.stop n.span.offset
        some (w.amend index fun a => { a with leading := some (addLeading a.leading p.comment isInline) })
      else none

/-- The comments that end before the start of a node. -/
def claim (source : Array Char) (n : Node) (place : NodePlace) (index : Nat) (w : Walker) : Walker :=
  drain (claimOne source n place index) w.queue w

/-- A comment behind a node. -/
def pushTrailing (index : Nat) (isInline : Bool) (p : PendingComment) (w : Walker) : Walker :=
  w.amend index fun a => { a with trailing := addTrailing isInline a.trailing p }

/-- Merges a comment at the end of a block into those behind its last statement, on a new line. -/
def addLate (trailing : Option CommentRun) (c : Comment) : CommentRun :=
  match trailing with
  | some run => run.pushLine c
  | none =>
    let run := CommentRun.ofComment c false
    { run with text := "\n" ++ run.text }

/-- The comments that are left inside a block: plain ones belong to its last statement. -/
def endOfBlock (stop index : Nat) (w : Walker) : Walker :=
  match w.lastChild index with
  | none => w
  | some last =>
    drain (fun p w =>
      if p.stop ≤ stop then
        some (if p.isPlain then w.amend last fun a => { a with trailing := some (addLate a.trailing p.comment) } else w)
      else none) w.queue w

/-- All comments that are left: plain ones belong to the root. -/
def endOfScript (index : Nat) (w : Walker) : Walker :=
  drain (fun p w => some (if p.isPlain then w.pushTrailing index false p else w)) w.queue w

/-- The plain comments that are left inside a statement. -/
def endOfStatement (stop index : Nat) (w : Walker) : Walker :=
  drain (fun p w => if p.isPlain && p.stop ≤ stop then some (w.pushTrailing index true p) else none) w.queue w

/-- Documentation inside a node that was left belongs to nothing. -/
def dropDocs (stop : Nat) (w : Walker) : Walker :=
  drain (fun p w => if !p.isPlain && p.stop ≤ stop then some w else none) w.queue w

/-- The plain comment behind a node on its line, with nothing but separators between. -/
def sameLine (source : Array Char) (stop index : Nat) (w : Walker) : Walker :=
  match w.queue with
  | [] => w
  | p :: rest =>
    if p.isPlain && stop ≤ p.comment.span.offset && onlySeparators source stop p.comment.span.offset then
      { w.pushTrailing index true p with queue := rest }
    else w

/-- The comments behind the children of a node that the walk leaves. -/
def behind (source : Array Char) (n : Node) (place : NodePlace) (index : Nat) (w : Walker) : Walker :=
  let stop := n.span.stop
  let w := if n.kind == .script then w.endOfScript index else w
  let w := if place.isStatement n.kind then w.endOfStatement stop index else w
  let w := w.dropDocs stop
  if place.isStatement n.kind || place.isListItem then w.sameLine source stop index else w

/-- The comments inside and behind a node that the walk leaves. -/
def leave (source : Array Char) (n : Node) (place : NodePlace) (index : Nat) (w : Walker) : Walker :=
  behind source n place index (if n.kind == .block then w.endOfBlock n.span.stop index else w)

/-- Notes that the parent has a child of the number, and no later one so far. -/
def note (w : Walker) (parent child : Option Nat) : Walker :=
  match parent, child with
  | some parent, some child => { w with lastChild := Function.update w.lastChild parent (some child) }
  | _, _ => w

/-- Performs one call. A node claims comments when it is entered, or behind its children if these come first. -/
def perform (source : Array Char) (c : Call) (w : Walker) : Walker :=
  match c with
  | .enter r place index parent =>
    let w := w.note parent (some index)
    if r.node.startsAfterChildren then w else w.claim source r.node place index
  | .exit r place index =>
    let w := if r.node.startsAfterChildren then w.claim source r.node place index else w
    w.leave source r.node place index

/-! ## What a step changes -/

/-- The step changes the queue, the sink and what is decided for the node of one number. -/
structure Settles (w w' : Walker) (index : Nat) (s : State) (a : Attachment) : Prop where
  state : w'.toState = s
  decided : w'.decided index = a
  others : ∀ k, k ≠ index → w'.decisions k = w.decisions k
  lastChild : w'.lastChild = w.lastChild

variable {w w₁ w₂ : Walker} {index : Nat} {s t : State} {a b : Attachment}

theorem Settles.refl (w : Walker) (index : Nat) : w.Settles w index w.toState (w.decided index) :=
  ⟨rfl, rfl, fun _ _ => rfl, rfl⟩

theorem Settles.trans (h : w.Settles w₁ index s a) (h' : w₁.Settles w₂ index t b) : w.Settles w₂ index t b :=
  ⟨h'.state, h'.decided, fun k hk => (h'.others k hk).trans (h.others k hk), h'.lastChild.trans h.lastChild⟩

/-- What becomes of the queue and the sink does not change decisions. -/
theorem Settles.withState (h : w.Settles w₁ index s a) (t : State) :
    w.Settles { w₁ with toState := t } index t a :=
  ⟨rfl, h.decided, h.others, h.lastChild⟩

theorem settles_amend (w : Walker) (index : Nat) (change : Attachment → Attachment) :
    w.Settles (w.amend index change) index w.toState (change (w.decided index)) := by
  refine ⟨rfl, ?_, ?_, rfl⟩
  · simp [decided, amend]
  · intro k hk
    simp [amend, hk]

/-- **Draining the queue** takes the comments to which the condition applies from its front, and changes the decision
for each of them in turn. -/
theorem settles_drain {act : PendingComment → Walker → Option Walker} {keep : PendingComment → Bool}
    (change : PendingComment → Attachment → Attachment) (hstop : ∀ p w, keep p = false → act p w = none)
    (hgo : ∀ p w, keep p = true →
      ∃ w', act p w = some w' ∧ w.Settles w' index w.toState (change p (w.decided index)))
    (queue : List PendingComment) (w : Walker) :
    w.Settles (drain act queue w) index ⟨queue.dropWhile keep, w.sink⟩
      ((queue.takeWhile keep).foldl (fun a p => change p a) (w.decided index)) := by
  induction queue generalizing w with
  | nil => exact (Settles.refl w index).withState _
  | cons p rest ih =>
      cases hp : keep p with
      | false =>
          rw [drain, hstop p w hp, List.dropWhile_cons_of_neg (by simp [hp]),
            List.takeWhile_cons_of_neg (by simp [hp])]
          exact (Settles.refl w index).withState _
      | true =>
          obtain ⟨w', hact, hw'⟩ := hgo p w hp
          rw [drain, hact, List.dropWhile_cons_of_pos hp, List.takeWhile_cons_of_pos hp, List.foldl_cons]
          have hrest := hw'.trans (ih w')
          rwa [hw'.decided, show w'.sink = w.sink from congrArg State.sink hw'.state] at hrest

/-! ## Before a node -/

theorem settles_claim (source : Array Char) (n : Node) (place : NodePlace) (index : Nat) (w : Walker) :
    w.Settles (w.claim source n place index) index
      (claimFrom source n place (w.decided index).claim w.queue w.sink).2
      ((w.decided index).claimed (claimFrom source n place (w.decided index).claim w.queue w.sink).1) := by
  have stays (w : Walker) (s : State) : w.Settles { w with toState := s } index s (w.decided index) :=
    (Settles.refl w index).withState s
  unfold claim
  -- what is drained is a list of its own: the walker gets its queue back at the end
  generalize w.queue = queue
  induction queue generalizing w with
  | nil => exact stays w _
  | cons p rest ih =>
      rw [drain, claimFrom, claimOne]
      by_cases hbehind : n.span.offset < p.stop
      · rw [if_pos hbehind, if_pos hbehind]
        exact stays w _
      · rw [if_neg hbehind, if_neg hbehind]
        cases hinfo : p.info with
        | none =>
            cases hplain : n.takesPlain place with
            | false => exact stays w _
            | true =>
                let isInline := !hasLineBreak source p.stop n.span.offset
                have hw := settles_amend w index fun a =>
                  { a with leading := some (addLeading a.leading p.comment isInline) }
                have hrest := hw.trans (ih _)
                rw [hw.decided] at hrest
                exact hrest
        | some info =>
            cases hpolicy : n.docPolicy place with
            | defer => exact stays w _
            | discard => exact ih w
            | accept =>
                have hw := (settles_amend w index ({ · with doc := (readDoc place p w.sink).1 })).withState
                  ⟨w.queue, (readDoc place p w.sink).2⟩
                have hrest := hw.trans (ih _)
                rw [hw.decided] at hrest
                exact hrest

/-- **What is decided before a node** is what it claims, if nothing was decided for it before. -/
theorem settles_claim_of_new (source : Array Char) (n : Node) (place : NodePlace) (hnew : w.decided index = {}) :
    w.Settles (w.claim source n place index) index (Attaching.claim source n place w.toState).2
      (({} : Attachment).claimed (Attaching.claim source n place w.toState).1) := by
  have h := settles_claim source n place index w
  rw [hnew] at h
  exact h

/-! ## Behind a node -/

/-- The step does to the comments behind the node of a number what `p` does to a run of comments. -/
def Trails (index : Nat) (step : Walker → Walker) (p : Option CommentRun → Attaching (Option CommentRun)) : Prop :=
  ∀ w : Walker, w.Settles (step w) index (p (w.decided index).trailing w.toState).2
    ((w.decided index).trailed (p (w.decided index).trailing w.toState).1)

namespace Trails

variable {f g : Walker → Walker} {p q : Option CommentRun → Attaching (Option CommentRun)}

theorem comp (hf : Trails index f p) (hg : Trails index g q) :
    Trails index (fun w => g (f w)) fun run => p run >>= q := by
  intro w
  have h := (hf w).trans (hg (f w))
  rw [(hf w).decided, (hf w).state] at h
  exact h

theorem ite (c : Bool) (hf : Trails index f p) :
    Trails index (fun w => if c then f w else w) fun run => if c then p run else pure run := by
  cases c with
  | false => exact fun w => Settles.refl w index
  | true => exact hf

/-- A drain that adds to the comments behind the node. -/
theorem drain {act : PendingComment → Walker → Option Walker} (keep : PendingComment → Bool)
    {add : Option CommentRun → PendingComment → Option CommentRun}
    (hstop : ∀ p w, keep p = false → act p w = none)
    (hgo : ∀ p w, keep p = true → ∃ w', act p w = some w' ∧
      w.Settles w' index w.toState ((w.decided index).trailed (add (w.decided index).trailing p))) :
    Trails index (fun w => drain act w.queue w) fun run => do
      let taken ← takeWhile keep
      return taken.foldl add run := by
  intro w
  have hfold (taken : List PendingComment) (a : Attachment) :
      taken.foldl (fun a p => a.trailed (add a.trailing p)) a = a.trailed (taken.foldl add a.trailing) := by
    induction taken generalizing a with
    | nil => rfl
    | cons p taken ih => rw [List.foldl_cons, ih, List.foldl_cons]; rfl
  have h := settles_drain (fun p a => a.trailed (add a.trailing p)) hstop hgo w.queue w
  rw [hfold] at h
  exact h

end Trails

theorem trails_endOfScript (index : Nat) : Trails index (endOfScript index) fun run => do
    let left ← takeWhile fun _ => true
    return (left.filter (·.isPlain)).foldl (addTrailing false) run := by
  have h : Trails index (endOfScript index) fun run => do
      let left ← takeWhile fun _ => true
      return left.foldl (fun run p => if p.isPlain then addTrailing false run p else run) run := by
    refine .drain (fun _ => true) (fun p w hp => absurd hp nofun) ?_
    intro p w _
    refine ⟨_, rfl, ?_⟩
    cases p.isPlain with
    | false => exact Settles.refl w index
    | true => exact settles_amend w index fun a => a.trailed (addTrailing false a.trailing p)
  simpa only [List.foldl_filter] using h

theorem trails_endOfStatement (stop index : Nat) :
    Trails index (endOfStatement stop index) (leaveStatement stop) := by
  refine .drain (fun p => p.isPlain && p.stop ≤ stop) ?_ ?_
  · intro p w hp
    exact if_neg (Bool.eq_false_iff.mp hp)
  · intro p w hp
    exact ⟨_, if_pos hp, settles_amend w index _⟩

theorem trails_dropDocs (stop index : Nat) : Trails index (dropDocs stop) fun run => do
    let _ ← takeWhile fun p => !p.isPlain && p.stop ≤ stop
    return run := by
  have h : Trails index (dropDocs stop) fun run => do
      let taken ← takeWhile fun p => !p.isPlain && p.stop ≤ stop
      return taken.foldl (fun run _ => run) run := by
    refine .drain (fun p => !p.isPlain && p.stop ≤ stop) ?_ ?_
    · intro p w hp
      exact if_neg (Bool.eq_false_iff.mp hp)
    · intro p w hp
      exact ⟨w, if_pos hp, Settles.refl w index⟩
  simpa only [List.foldl_fixed] using h

theorem trails_sameLine (source : Array Char) (stop index : Nat) :
    Trails index (sameLine source stop index) (Attaching.sameLine source stop) := by
  intro w
  obtain ⟨⟨queue, sink⟩, decisions, lastChild⟩ := w
  cases queue with
  | nil => exact Settles.refl _ index
  | cons p rest =>
      rw [sameLine_cons]
      dsimp only [sameLine]
      split
      · exact (settles_amend _ index fun a => a.trailed (addTrailing true a.trailing p)).withState _
      · exact Settles.refl _ index

/-- **What is decided behind a node** that is left, if nothing was decided there before. -/
theorem settles_behind (source : Array Char) (n : Node) (place : NodePlace) (index : Nat) (w : Walker)
    (htrailing : (w.decided index).trailing = none) :
    w.Settles (w.behind source n place index) index
      (settleBehind source place n.kind n.span.stop w.toState).2
      ((w.decided index).trailed (settleBehind source place n.kind n.span.stop w.toState).1) := by
  have h := ((((trails_endOfScript index).ite (n.kind == .script)).comp
    ((trails_endOfStatement n.span.stop index).ite (place.isStatement n.kind))).comp
      (trails_dropDocs n.span.stop index)).comp
        ((trails_sameLine source n.span.stop index).ite (place.isStatement n.kind || place.isListItem)) w
  rw [htrailing] at h
  unfold settleBehind settleScript settleStatement settleLine
  exact h

/-! ## Behind the last statement of a block -/

theorem attached_addLate (trailing : Option CommentRun) (p : PendingComment) :
    some (addLate trailing p.comment).attached = addBlockTrailing (trailing.map (·.attached)) p := by
  cases trailing with
  | none => rfl
  | some run => rfl

theorem attached_foldl_addLate (ps : List PendingComment) (trailing : Option CommentRun) :
    (ps.foldl (fun run p => some (addLate run p.comment)) trailing).map (·.attached) =
      ps.foldl addBlockTrailing (trailing.map (·.attached)) := by
  induction ps generalizing trailing with
  | nil => rfl
  | cons p ps ih =>
      rw [List.foldl_cons, List.foldl_cons, ih, Option.map_some, attached_addLate]

/-- The last child of a block takes the comments that end inside the block. -/
theorem settles_endOfBlock {last : Nat} (hlast : w.lastChild index = some last) (stop : Nat) :
    w.Settles (w.endOfBlock stop index) last (takeWhile (fun p => p.stop ≤ stop) w.toState).2
      ((w.decided last).trailed (((takeWhile (fun p => p.stop ≤ stop) w.toState).1.filter (·.isPlain)).foldl
        (fun run p => some (addLate run p.comment)) (w.decided last).trailing)) := by
  have h : Trails last (fun w => drain (fun p w =>
      if p.stop ≤ stop then
        some (if p.isPlain then w.amend last fun a => { a with trailing := some (addLate a.trailing p.comment) } else w)
      else none) w.queue w) fun run => do
        let taken ← takeWhile fun p => p.stop ≤ stop
        return taken.foldl (fun run p => if p.isPlain then some (addLate run p.comment) else run) run := by
    refine .drain (fun p => p.stop ≤ stop) ?_ ?_
    · intro p w hp
      exact if_neg (by simpa using hp)
    · intro p w hp
      refine ⟨_, if_pos (by simpa using hp), ?_⟩
      cases p.isPlain with
      | false => exact Settles.refl w last
      | true => exact settles_amend w last fun a => a.trailed (some (addLate a.trailing p.comment))
  have hw := h w
  simp only [List.foldl_filter] at hw ⊢
  unfold endOfBlock
  rw [hlast]
  exact hw

end Walker

end Attaching

end EcmaScript
