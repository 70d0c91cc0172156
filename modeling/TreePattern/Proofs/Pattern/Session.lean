import TreePattern.Proofs.Pattern.Loading

namespace TreePattern

namespace Builder

inductive Call where
  | add (node : PatternNode)
  | reserve
  | define (id : PatternId) (node : PatternNode)
deriving DecidableEq

/-- What a call does with the one slot that it is about. -/
structure Event where
  id : PatternId
  handedOut : Bool
  node : Option PatternNode
deriving DecidableEq

def Event.put? (event : Event) (id : PatternId) : Option PatternNode :=
  if event.id = id then event.node else none

/-- The node that the last of the events that put one there puts into a slot. -/
def latest? (events : List Event) (id : PatternId) : Option PatternNode :=
  events.reverse.findSome? (·.put? id)

def perform (b : Builder) : Call → Event × Builder
  | .add node => (⟨(b.add node).1, true, some node⟩, (b.add node).2)
  | .reserve => (⟨b.reserve.1, true, none⟩, b.reserve.2)
  | .define id node => (⟨id, false, some node⟩, b.define id node)

def performAll (b : Builder) : List Call → List Event × Builder
  | [] => ([], b)
  | call :: rest =>
    let (event, b) := b.perform call
    let (events, b) := b.performAll rest
    (event :: events, b)

variable {b : Builder} {past : List Event} {id : PatternId} {node : PatternNode}

theorem latest?_append_singleton (past : List Event) (event : Event) (id : PatternId) :
    latest? (past ++ [event]) id = (event.put? id).or (latest? past id) := by
  rw [latest?, List.reverse_append, List.reverse_singleton, List.singleton_append,
    List.findSome?_cons]
  cases event.put? id <;> rfl

theorem latest?_eq_some_iff : latest? past id = some node ↔
    ∃ before event after, past = before ++ event :: after ∧ event.put? id = some node ∧
      ∀ later ∈ after, later.put? id = none := by
  rw [latest?, List.findSome?_eq_some_iff]
  constructor
  · rintro ⟨after, event, before, hpast, hput, hafter⟩
    refine ⟨before.reverse, event, after.reverse, ?_, hput, ?_⟩
    · rw [← List.reverse_inj, hpast]
      simp
    · intro later hl
      exact hafter later (List.mem_reverse.mp hl)
  · rintro ⟨before, event, after, rfl, hput, hafter⟩
    refine ⟨after.reverse, event, before.reverse, by simp, hput, ?_⟩
    intro later hl
    exact hafter later (List.mem_reverse.mp hl)

theorem latest?_eq_none_iff :
    latest? past id = none ↔ ∀ event ∈ past, event.put? id = none := by
  rw [latest?, List.findSome?_eq_none_iff]
  simp only [List.mem_reverse]

theorem get?_of_size_le (h : b.slots.size ≤ id) : b.get? id = none := by
  cases hg : b.get? id with
  | none => rfl
  | some node => exact absurd (RawPattern.get?_lt hg) (Nat.not_lt_of_le h)

theorem get?_push (b : Builder) (slot : Option PatternNode) (id : PatternId) :
    (⟨b.slots.push slot⟩ : Builder).get? id =
      (if b.slots.size = id then slot else none).or (b.get? id) := by
  by_cases h : b.slots.size = id
  · subst h
    rw [get?_of_size_le le_rfl]
    simp [get?, RawPattern.get?, build]
  · have hne : id ≠ b.slots.size := Ne.symm h
    simp [get?, RawPattern.get?, build, Array.getElem?_push, h, hne]

/-- Empty slots at the end make no difference. -/
theorem get?_pad (b : Builder) (count id : ℕ) :
    (⟨b.slots ++ Array.replicate count none⟩ : Builder).get? id = b.get? id := by
  by_cases hid : id < b.slots.size
  · simp [get?, RawPattern.get?, build, Array.getElem?_append, hid]
  · rw [get?_of_size_le (Nat.le_of_not_lt hid)]
    simp only [get?, RawPattern.get?, build, Array.getElem?_append, hid, if_false,
      Array.getElem?_replicate]
    split <;> rfl

theorem get?_define (b : Builder) (target : ℕ) (node : PatternNode) (id : ℕ) :
    (b.define target node).get? id =
      (if target = id then some node else none).or (b.get? id) := by
  rw [← get?_pad b (target + 1 - b.slots.size) id]
  by_cases h : target = id
  · subst h
    have hlt : target < (b.slots ++ Array.replicate (target + 1 - b.slots.size) none).size := by
      simp only [Array.size_append, Array.size_replicate]
      omega
    simp [get?, RawPattern.get?, build, define, Array.getElem?_setIfInBounds_self_of_lt hlt]
  · simp [get?, RawPattern.get?, build, define, h]

/-- A call leaves every slot as it was, except for the node that it puts into its own. -/
theorem get?_perform (b : Builder) (call : Call) (id : PatternId) :
    (b.perform call).2.get? id = ((b.perform call).1.put? id).or (b.get? id) := by
  cases call with
  | add node => exact get?_push b (some node) id
  | reserve => exact get?_push b none id
  | define target node => exact get?_define b target node id

theorem size_perform (b : Builder) (call : Call) :
    (b.perform call).2.slots.size = max b.slots.size ((b.perform call).1.id + 1) := by
  cases call with
  | add node => simp [perform, add]
  | reserve => simp [perform, reserve]
  | define target node =>
    simp only [perform, define, Array.size_setIfInBounds, Array.size_append, Array.size_replicate]
    omega

/-- The slot that is handed out is the next one. -/
theorem id_perform {call : Call} (h : (b.perform call).1.handedOut = true) :
    (b.perform call).1.id = b.slots.size := by
  cases call with
  | add node => rfl
  | reserve => rfl
  | define target node => cases h

structure Reflects (b : Builder) (past : List Event) : Prop where
  below : ∀ event ∈ past, event.id < b.slots.size
  last : 0 < b.slots.size → ∃ event ∈ past, event.id + 1 = b.slots.size
  stored : ∀ id, b.get? id = latest? past id
  fresh : past.Pairwise fun earlier later ↦ later.handedOut = true → earlier.id < later.id

theorem Reflects.empty : empty.Reflects [] where
  below := by simp
  last h := absurd h (by simp [Builder.empty])
  stored id := get?_of_size_le (Nat.zero_le id)
  fresh := .nil

theorem Reflects.perform (h : b.Reflects past) (call : Call) :
    (b.perform call).2.Reflects (past ++ [(b.perform call).1]) where
  below := by
    intro event he
    rw [size_perform]
    cases List.mem_append.mp he with
    | inl he => exact lt_max_of_lt_left (h.below event he)
    | inr he =>
      rw [List.mem_singleton.mp he]
      exact lt_max_of_lt_right (Nat.lt_succ_self _)
  last _ := by
    rw [size_perform]
    -- A call on a slot that is there already leaves the largest one as it was.
    by_cases hlt : (b.perform call).1.id < b.slots.size
    · obtain ⟨event, he, hid⟩ := h.last (Nat.zero_lt_of_lt hlt)
      exact ⟨event, List.mem_append_left _ he, hid.trans (max_eq_left hlt).symm⟩
    · have hle : b.slots.size ≤ (b.perform call).1.id + 1 :=
        Nat.le_succ_of_le (Nat.le_of_not_lt hlt)
      exact ⟨_, List.mem_append_right _ List.mem_cons_self, (max_eq_right hle).symm⟩
  stored id := by rw [get?_perform, latest?_append_singleton, h.stored]
  fresh := by
    rw [List.pairwise_append]
    refine ⟨h.fresh, List.pairwise_singleton _ _, ?_⟩
    intro earlier he later hl hout
    rw [List.mem_singleton.mp hl] at hout ⊢
    rw [id_perform hout]
    exact h.below earlier he

theorem Reflects.performAll (h : b.Reflects past) (calls : List Call) :
    (b.performAll calls).2.Reflects (past ++ (b.performAll calls).1) := by
  induction calls generalizing b past with
  | nil => simpa [Builder.performAll] using h
  | cons call rest ih => simpa [Builder.performAll] using ih (h.perform call)

/-- What a builder holds after any session. Every slot that was handed out is larger than all slots
handed out or given before it. A slot has the node that was put there last, and none if none was put
there. A further call changes no slot but its own. There are as many slots as it takes to reach the
largest one that was handed out or given. -/
theorem performAll_remembers {calls : List Call} {events : List Event}
    (h : empty.performAll calls = (events, b)) (root : PatternId) :
    events.Pairwise (fun earlier later ↦ later.handedOut = true → earlier.id < later.id) ∧
      (∀ id node, (b.build root).get? id = some node ↔
        ∃ before event after, events = before ++ event :: after ∧
          event.put? id = some node ∧ ∀ later ∈ after, later.put? id = none) ∧
      (∀ id, (b.build root).get? id = none ↔ ∀ event ∈ events, event.put? id = none) ∧
      (∀ call id, (b.perform call).1.id ≠ id →
        ((b.perform call).2.build root).get? id = (b.build root).get? id) ∧
      (events = [] ∧ (b.build root).size = 0 ∨
        ∃ largest ∈ events, (∀ event ∈ events, event.id ≤ largest.id) ∧
          (b.build root).size = largest.id + 1) := by
  have hb : b.Reflects events := by simpa [h] using Reflects.empty.performAll calls
  refine ⟨hb.fresh, ?_, ?_, ?_, ?_⟩
  · intro id node
    rw [← latest?_eq_some_iff, ← hb.stored]
    rfl
  · intro id
    rw [← latest?_eq_none_iff, ← hb.stored]
    rfl
  · intro call id hne
    change (b.perform call).2.get? id = b.get? id
    rw [get?_perform, Event.put?, if_neg hne, Option.none_or]
  · cases events with
    | nil =>
      refine .inl ⟨rfl, ?_⟩
      by_contra hsize
      obtain ⟨event, he, -⟩ := hb.last (Nat.pos_of_ne_zero hsize)
      cases he
    | cons first rest =>
      have hfirst := hb.below first List.mem_cons_self
      obtain ⟨largest, hl, hsize⟩ := hb.last (Nat.zero_lt_of_lt hfirst)
      refine .inr ⟨largest, hl, ?_, hsize.symm⟩
      intro event he
      have hlt := hb.below event he
      rw [← hsize] at hlt
      exact Nat.le_of_lt_succ hlt

end Builder

def Sample.scatteredCalls : List Builder.Call :=
  [.reserve, .define 3 ⟨some "ident", .literal ⟨some "Ident", []⟩⟩,
    .add ⟨none, .search ⟨[3], false, .anyOf⟩⟩, .define 3 ⟨none, .literal ⟨some "BasicLit", []⟩⟩,
    .reserve]

theorem Builder.performAll_remembers_scattered :
    ∃ events b, empty.performAll Sample.scatteredCalls = (events, b) ∧
      events.map (·.id) = [0, 3, 4, 3, 5] ∧
      events.Pairwise (fun earlier later ↦ later.handedOut = true → earlier.id < later.id) ∧
      (b.build 4).get? 3 = some ⟨none, .literal ⟨some "BasicLit", []⟩⟩ ∧
      (b.build 4).get? 1 = none ∧
      ∃ largest ∈ events, (∀ event ∈ events, event.id ≤ largest.id) ∧
        (b.build 4).size = largest.id + 1 := by
  obtain ⟨hfresh, hsome, hnone, -, hsize⟩ :=
    performAll_remembers (rfl : empty.performAll Sample.scatteredCalls = (_, _)) 4
  refine ⟨_, _, rfl, rfl, hfresh, ?_, ?_, hsize.resolve_left (by simp)⟩
  · exact (hsome 3 _).mpr ⟨[_, _, _], _, [_], rfl, rfl, by decide⟩
  · exact (hnone 1).mpr (by decide)

end TreePattern
