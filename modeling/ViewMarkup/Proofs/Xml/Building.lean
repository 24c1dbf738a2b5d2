import Mathlib
import ViewMarkup.Proofs.Fallible
import ViewMarkup.Xml.Node

/-!
# What a sequence of events builds

The events of a document open and close elements. What they amount to can be said without a stack:
complete elements stand one after the other, and an element that is still open holds the complete
ones behind its start tag. The tree builder finds just that.

It looks at complete elements only. If one element is complete at the top, and another one was begun
behind it and is still open at the end, the first one is the root, and nothing is said about the
second. So a document with one complete element need not be a document of one element, and the
obvious description of what is accepted holds only where every start tag is closed.

## Main definitions

* `Event.after?`, `Event.AreNested` — the events that a reader delivers.
* `Forms` — events are complete elements, one after the other.
* `Leaves` — events have completed elements at the top and leave others open.

## Main statements

* `AreNested.exists_leaves` — what is delivered at any time is complete elements and open ones.
* `Leaves.ofEvents_eq` — the outcome depends on the elements that are complete at the top.
* `Node.ofEvents_eq_ok_iff` — the sequences that have a tree.
* `Node.ofText_eq_ok_iff` — the texts that have a tree.
-/

namespace ViewMarkup.Xml

/-! ### Events that are delivered -/

namespace Event

/-- The number of open elements after an event, given the number before. A reader delivers an end
tag for an open element only, and nothing behind a fault. -/
def after? (depth : Nat) : Event → Option Nat
  | start _ _ => some (depth + 1)
  | empty _ _ | other => some depth
  | stop =>
      match depth with
      | 0 => none
      | depth + 1 => some depth
  | fault _ => none

/-- A reader delivers the events one after the other, beginning with a number of open elements. -/
def AreNested (depth : Nat) : List Event → Prop
  | [] => True
  | e :: es => ∃ depth', e.after? depth = some depth' ∧ AreNested depth' es

/-- A start tag. -/
def IsStart : Event → Bool
  | start _ _ => true
  | _ => false

/-- A step of the reader delivers an event and keeps count of the open elements, or meets a fault. -/
def Delivers (opened : List (List Char)) (step : Step) : Prop :=
  (∃ f, step.1 = fault f) ∨ step.1.after? opened.length = some step.2.1.length

section Delivers

variable (opened : List (List Char)) (cs : List Char)

/-- A section opens and closes nothing. -/
lemma delivers_section (part : Section) (content : Option (List Char))
    (accepts : List Char → Option Fault) :
    Delivers opened (match content with
      | none => (fault (.unfinished part), opened, 0)
      | some content =>
          match accepts content with
          | some f => (fault f, opened, 0)
          | none => (other, opened, content.length + 2)) := by
  split
  · exact .inl ⟨_, rfl⟩
  · split
    · exact .inl ⟨_, rfl⟩
    · exact .inr rfl

/-- A step over a comment or a declaration delivers. -/
lemma delivers_bangStep : Delivers opened (bangStep opened cs) := by
  unfold bangStep
  split
  · exact .inl ⟨_, rfl⟩
  · split_ifs
    · exact delivers_section opened _ _ _
    · exact delivers_section opened _ _ _
    · exact delivers_section opened _ _ _
    · exact .inl ⟨_, rfl⟩

/-- So does a step over an end tag. -/
lemma delivers_endStep : Delivers opened (endStep opened cs) := by
  cases opened with
  | nil => exact .inl ⟨_, rfl⟩
  | cons expected opened =>
    unfold endStep
    dsimp only
    split_ifs
    · exact .inr rfl
    · exact .inl ⟨_, rfl⟩
    · exact .inr rfl
    · exact .inl ⟨_, rfl⟩

/-- So does a step over an instruction. -/
lemma delivers_instructionStep : Delivers opened (instructionStep opened cs) := by
  unfold instructionStep
  dsimp only
  split
  · exact .inr rfl
  · exact .inl ⟨_, rfl⟩

/-- So does a step over a start tag. -/
lemma delivers_startStep : Delivers opened (startStep opened cs) := by
  unfold startStep
  dsimp only
  split
  · exact .inl ⟨_, rfl⟩
  · split
    · exact .inr rfl
    · exact .inr rfl

/-- The names of the open elements are kept along with the tags, so every step keeps count. -/
lemma delivers_tagStep {step : Step} (h : tagStep opened cs = some step) :
    Delivers opened step := by
  unfold tagStep at h
  split at h <;> cases h
  · exact delivers_bangStep opened _
  · exact delivers_endStep opened _
  · exact delivers_instructionStep opened _
  · exact delivers_startStep opened cs

end Delivers

/-- The events behind open tags are nested, if there is no fault among them. -/
lemma areNested_ofChars (opened : List (List Char)) (cs : List Char)
    (h : ∀ f, fault f ∉ ofChars opened cs) : AreNested opened.length (ofChars opened cs) := by
  fun_induction ofChars opened cs with
  | case1 => trivial
  | case2 => trivial
  | case3 => exact absurd List.mem_cons_self (h _)
  | case4 opened cs event opened' taken hne hstep ih =>
    obtain ⟨f, hf⟩ | hafter := delivers_tagStep opened cs hstep
    · exact (hne f hf).elim
    · exact ⟨_, hafter, ih fun f hf => h f (List.mem_cons_of_mem _ hf)⟩
  | case5 opened c cs _ ih =>
    exact ⟨_, rfl, ih fun f hf => h f (List.mem_cons_of_mem _ hf)⟩

/-- **The events of a document** are nested, if it has no fault. -/
theorem areNested_ofText (text : String) (h : ∀ f, fault f ∉ ofText text) :
    AreNested 0 (ofText text) := by
  unfold ofText at h ⊢
  split at h
  · exact areNested_ofChars [] _ h
  · exact areNested_ofChars [] _ h

end Event

/-! ### Complete and open elements -/

/-- Events are complete elements, one after the other, apart from what is no element. Each element
has the attributes of its tag, and inside it are the elements between its start tag and its end
tag. -/
inductive Forms : List Event → List Node → Prop where
  /-- There are no events. -/
  | nil : Forms [] []
  /-- Something that is no element. -/
  | other {es ns} : Forms es ns → Forms (.other :: es) ns
  /-- A tag that is an element by itself. -/
  | empty {tag attributes es ns} : Forms es ns →
      Forms (.empty tag attributes :: es) (⟨tag, attributes, []⟩ :: ns)
  /-- A start tag with its end tag. -/
  | element {tag attributes inner children es ns} : Forms inner children → Forms es ns →
      Forms (.start tag attributes :: (inner ++ .stop :: es)) (⟨tag, attributes, children⟩ :: ns)

/-- Events have completed elements at the top, and leave others open, innermost first, each with the
complete ones behind its start tag. -/
inductive Leaves : List Event → List Node → List Node → Prop where
  /-- Nothing is open. -/
  | complete {es roots} : Forms es roots → Leaves es roots []
  /-- A start tag is not closed. -/
  | inside {es roots opened tag attributes inner children} : Leaves es roots opened →
      Forms inner children →
      Leaves (es ++ .start tag attributes :: inner) roots (⟨tag, attributes, children⟩ :: opened)

variable {es inner chunk : List Event} {ns ns' roots opened : List Node}

namespace Forms

/-- Complete elements behind complete ones are complete. -/
lemma append {es' : List Event} (h : Forms es ns) (h' : Forms es' ns') :
    Forms (es ++ es') (ns ++ ns') := by
  induction h with
  | nil => exact h'
  | other _ ih => exact .other ih
  | empty _ ih => exact .empty ih
  | element hinner _ _ ih =>
    rw [List.cons_append, List.append_assoc]
    exact .element hinner ih

/-- Complete elements close all that they open. -/
lemma countP_isStart (h : Forms es ns) : es.countP Event.IsStart = es.count .stop := by
  induction h with
  | nil => rfl
  | other _ ih => simpa [Event.IsStart] using ih
  | empty _ ih => simpa [Event.IsStart] using ih
  | element _ _ ih ih' =>
    simp only [List.countP_cons, List.countP_append, List.count_cons, List.count_append, ih, ih']
    simp [Event.IsStart]
    omega

end Forms

namespace Leaves

/-- Complete elements leave the same number of elements open. -/
lemma append (h : Leaves es roots opened) (hc : Forms chunk ns) :
    ∃ roots' opened', Leaves (es ++ chunk) roots' opened' ∧ opened'.length = opened.length := by
  cases h with
  | complete h => exact ⟨_, _, .complete (h.append hc), rfl⟩
  | inside h hinner =>
    rw [List.append_assoc, List.cons_append]
    exact ⟨_, _, .inside h (hinner.append hc), rfl⟩

/-- What is open has start tags without end tags. -/
lemma countP_isStart (h : Leaves es roots opened) :
    es.countP Event.IsStart = es.count .stop + opened.length := by
  induction h with
  | complete h => exact h.countP_isStart
  | inside _ hinner ih =>
    simp only [List.countP_append, List.countP_cons, List.count_append, List.count_cons, ih,
      hinner.countP_isStart, List.length_cons]
    simp [Event.IsStart]
    omega

/-- **One more event** that a reader delivers: an end tag completes the innermost open element. -/
theorem step (h : Leaves es roots opened) {e : Event} {depth : Nat}
    (he : e.after? opened.length = some depth) :
    ∃ roots' opened', Leaves (es ++ [e]) roots' opened' ∧ opened'.length = depth := by
  cases e with
  | start tag attributes => exact ⟨_, _, .inside h .nil, Option.some.inj he⟩
  | empty tag attributes =>
    cases he
    exact h.append (.empty .nil)
  | other =>
    cases he
    exact h.append (.other .nil)
  | fault f => cases he
  | stop =>
    cases h with
    | complete => cases he
    | inside h hinner =>
      cases he
      rw [List.append_assoc, List.cons_append]
      exact h.append (.element hinner .nil)

end Leaves

/-- Whatever a reader delivers, it is complete elements and open ones at any time. -/
theorem Event.AreNested.exists_leaves {depth : Nat} {rest : List Event} (h : AreNested depth rest)
    (hl : Leaves es roots opened) (hd : opened.length = depth) :
    ∃ roots' opened', Leaves (es ++ rest) roots' opened' := by
  induction rest generalizing es roots opened depth with
  | nil => exact ⟨_, _, by rwa [List.append_nil]⟩
  | cons e rest ih =>
    obtain ⟨depth', he, h⟩ := h
    obtain ⟨_, _, hl', hd'⟩ := hl.step (hd ▸ he)
    rw [← List.singleton_append, ← List.append_assoc]
    exact ih h hl' hd'

/-! ### The tree builder -/

namespace Node

/-- What the builder answers, given the elements that are complete at the top. -/
def outcome : List Node → Except TreeError Node
  | [] => .error .empty
  | [n] => .ok n
  | _ :: m :: _ => .error (.secondRoot m.tag)

/-- Completed elements go into an open one. -/
lemma foldlM_complete_of_opened (ns : List Node) (n : Node) (opened : List Node)
    (root : Option Node) :
    ns.foldlM Progress.complete ⟨n :: opened, root⟩ =
      .ok ⟨{ n with children := n.children ++ ns } :: opened, root⟩ := by
  induction ns generalizing n with
  | nil =>
    obtain ⟨tag, attributes, children⟩ := n
    rw [List.foldlM_nil, List.append_nil]
    rfl
  | cons m ns ih =>
    rw [List.foldlM_cons]
    refine (ih (n.append m)).trans ?_
    rw [append, List.append_assoc, List.singleton_append]

end Node

open Node

/-- Complete elements are completed one after the other. -/
lemma Forms.foldlM_step (h : Forms es ns) (p : Progress) :
    es.foldlM Progress.step p = ns.foldlM Progress.complete p := by
  induction h generalizing p with
  | nil => rfl
  | other _ ih =>
    rw [List.foldlM_cons]
    exact ih p
  | empty _ ih =>
    rw [List.foldlM_cons, List.foldlM_cons]
    exact bind_congr ih
  | @element tag attributes inner children es ns _ _ ih ih' =>
    have hinner : inner.foldlM Progress.step ⟨⟨tag, attributes, []⟩ :: p.opened, p.root⟩ =
        .ok ⟨⟨tag, attributes, children⟩ :: p.opened, p.root⟩ := by
      rw [ih, foldlM_complete_of_opened]
      rfl
    rw [List.foldlM_cons, List.foldlM_cons, ← bind_congr ih']
    -- the start tag opens an element, which its end tag completes
    calc (inner ++ .stop :: es).foldlM Progress.step ⟨⟨tag, attributes, []⟩ :: p.opened, p.root⟩
        = (Event.stop :: es).foldlM Progress.step
            ⟨⟨tag, attributes, children⟩ :: p.opened, p.root⟩ := by
          rw [List.foldlM_append, hinner]
          rfl
      _ = p.complete ⟨tag, attributes, children⟩ >>= es.foldlM Progress.step :=
          List.foldlM_cons

namespace Leaves

/-- The builder keeps the open elements, whatever is complete at the top. -/
lemma foldlM_step (h : Leaves es roots opened) :
    es.foldlM Progress.step {} =
      (roots.foldlM Progress.complete {}).map fun p => ⟨opened, p.root⟩ := by
  induction h with
  | @complete es roots h =>
    rw [h.foldlM_step]
    match roots with
    | [] => rfl
    | [n] => rfl
    | n :: m :: ns => rfl
  | @inside es roots opened tag attributes inner children _ hinner ih =>
    rw [List.foldlM_append, ih]
    cases roots.foldlM Progress.complete {} with
    | error e => rfl
    | ok p =>
      refine (hinner.foldlM_step ⟨⟨tag, attributes, []⟩ :: opened, p.root⟩).trans ?_
      rw [foldlM_complete_of_opened]
      rfl

/-- **The outcome** depends on the elements that are complete at the top alone. -/
theorem ofEvents_eq (h : Leaves es roots opened) : ofEvents es = outcome roots := by
  unfold ofEvents
  rw [h.foldlM_step]
  match roots with
  | [] => rfl
  | [n] => rfl
  | n :: m :: ns => rfl

end Leaves

namespace Node

/-- There is a tree if exactly one element is complete at the top. -/
lemma outcome_eq_ok {n : Node} : outcome roots = .ok n ↔ roots = [n] := by
  match roots with
  | [] => simp [outcome]
  | [m] => simp [outcome]
  | m :: m' :: ms => simp [outcome]

/-- There is none if no element is complete at the top, or a second one. -/
lemma outcome_eq_error {e : TreeError} :
    outcome roots = .error e ↔
      (roots = [] ∧ e = .empty) ∨ ∃ n m ns, roots = n :: m :: ns ∧ e = .secondRoot m.tag := by
  match roots with
  | [] => simp [outcome, eq_comm]
  | [m] => simp [outcome]
  | m :: m' :: ms => simp [outcome, eq_comm]

/-- Events that a reader can deliver have a tree if exactly one element is complete at the top. -/
lemma ofEvents_eq_ok_iff_leaves {events : List Event} (h : Event.AreNested 0 events) {n : Node} :
    ofEvents events = .ok n ↔ ∃ opened, Leaves events [n] opened := by
  obtain ⟨roots, opened, hl⟩ := h.exists_leaves (.complete .nil) rfl
  rw [List.nil_append] at hl
  refine ⟨fun hn => ?_, fun ⟨_, hn⟩ => hn.ofEvents_eq⟩
  rw [hl.ofEvents_eq, outcome_eq_ok] at hn
  exact ⟨opened, hn ▸ hl⟩

/-- The builder does not go on behind a fault. -/
lemma fault_notMem_of_foldlM_step {events : List Event} {p p' : Progress}
    (h : events.foldlM Progress.step p = .ok p') (f : Fault) : .fault f ∉ events := by
  induction events generalizing p with
  | nil => exact List.not_mem_nil
  | cons e events ih =>
    rw [List.foldlM_cons] at h
    obtain ⟨p₁, he, h⟩ := Except.bind_eq_ok.1 h
    refine List.not_mem_cons_of_ne_of_not_mem ?_ (ih h)
    rintro rfl
    cases he

/-- **The tree of the events.** A sequence of events that a reader can deliver has a tree if there is
exactly one complete element at the top, and the tree is that element, whether or not elements behind
it are still open. If all start tags are closed, then the events are exactly one complete element.
There is an error if no element is complete at the top, or the second one that is. -/
theorem ofEvents_eq_ok_iff {events : List Event} (h : Event.AreNested 0 events) :
    (∀ n, ofEvents events = .ok n ↔ ∃ opened, Leaves events [n] opened) ∧
      (events.countP Event.IsStart = events.count .stop →
        ∀ n, ofEvents events = .ok n ↔ Forms events [n]) ∧
      ∀ e, ofEvents events = .error e ↔
        (e = .empty ∧ ∃ opened, Leaves events [] opened) ∨
          ∃ n m ns opened, Leaves events (n :: m :: ns) opened ∧ e = .secondRoot m.tag := by
  obtain ⟨roots, opened, hl⟩ := h.exists_leaves (.complete .nil) rfl
  rw [List.nil_append] at hl
  have hok : ∀ n, ofEvents events = .ok n ↔ ∃ opened, Leaves events [n] opened :=
    fun _ => ofEvents_eq_ok_iff_leaves h
  refine ⟨hok, fun hc n => (hok n).trans ⟨fun ⟨opened', hn⟩ => ?_, fun hn => ⟨[], .complete hn⟩⟩,
    fun e => ⟨fun he => ?_, ?_⟩⟩
  · -- nothing is open if all start tags are closed
    have hlen := hn.countP_isStart
    cases hn with
    | complete hn => exact hn
    | inside => rw [hc, List.length_cons] at hlen; omega
  · rw [hl.ofEvents_eq, outcome_eq_error] at he
    rcases he with ⟨rfl, rfl⟩ | ⟨n, m, ns, rfl, rfl⟩
    · exact .inl ⟨rfl, opened, hl⟩
    · exact .inr ⟨n, m, ns, opened, hl, rfl⟩
  · rintro (⟨rfl, _, hn⟩ | ⟨_, m, _, _, hn, rfl⟩)
    · exact hn.ofEvents_eq
    · exact hn.ofEvents_eq

/-- **The tree of a text.** A text has a tree if its events have no fault and complete exactly one
element at the top, and the tree is that element. -/
theorem ofText_eq_ok_iff {text : String} {n : Node} :
    ofText text = .ok n ↔ ∃ opened, Leaves (Event.ofText text) [n] opened := by
  refine ⟨fun h => ?_, fun ⟨_, h⟩ => h.ofEvents_eq⟩
  have sound : ∀ f, .fault f ∉ Event.ofText text := by
    rw [ofText, ofEvents] at h
    split at h
    · cases h
    · next hp => exact fault_notMem_of_foldlM_step hp
  exact (ofEvents_eq_ok_iff_leaves (Event.areNested_ofText text sound)).1 h

/-- The events of a document with one complete element and one that is never closed. -/
def openSecond : List Event := [.empty "Component" [("type", "A")], .start "Label" []]

/-- The element that is never closed leaves no trace. -/
theorem ofEvents_openSecond :
    Event.AreNested 0 openSecond ∧
      ofEvents openSecond = .ok ⟨"Component", [("type", "A")], []⟩ := by
  have h : Event.AreNested 0 openSecond := ⟨0, rfl, 1, rfl, trivial⟩
  exact ⟨h, ((ofEvents_eq_ok_iff h).1 _).2
    ⟨[⟨"Label", [], []⟩], .inside (.complete (.empty .nil)) .nil⟩⟩

/-- **A document that is no single element** but has a tree: a second element is noticed only when it
is complete. -/
theorem exists_ofText_eq_ok_of_not_forms :
    (∃ n, ofText "<Component type=\"A\"/><Label>" = .ok n) ∧
      ¬ ∃ n, Forms (Event.ofText "<Component type=\"A\"/><Label>") [n] := by
  have hevents : Event.ofText "<Component type=\"A\"/><Label>" = openSecond := by cbv
  refine ⟨⟨⟨"Component", [("type", "A")], []⟩, ?_⟩, ?_⟩
  · rw [ofText, hevents]
    rfl
  · rintro ⟨n, hn⟩
    rw [hevents] at hn
    exact absurd hn.countP_isStart (by decide)

end Node

end ViewMarkup.Xml
