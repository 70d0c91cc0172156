import TreePattern.Proofs.Pattern.Acceptance

namespace TreePattern

open Relation

namespace RawPattern

def check (raw : RawPattern) (path : List PatternId) (id : PatternId) :
    Except CompileFault (List PatternId) :=
  if id ∈ path then .error .cycle
  else
    match raw.get? id with
    | none => .error .dangling
    | some ⟨_, .search ⟨[], _, _⟩⟩ => .error .emptyRuleSet
    | some node => .ok node.references

/-- The depth-first walk along references from left to right, inside the slots of `path`. It skips
the slots that are finished and checks the others. It ends at the first fault, or well with the
slots finished by then. -/
inductive Traverses (raw : RawPattern) : List PatternId → List PatternId → List PatternId →
    Except CompileError (List PatternId) → Prop
  | done (path finished : List PatternId) : Traverses raw path finished [] (.ok finished)
  | skip {path finished rest : List PatternId} {id : PatternId}
      {out : Except CompileError (List PatternId)} :
      id ∈ finished → Traverses raw path finished rest out →
      Traverses raw path finished (id :: rest) out
  | fault {path finished rest : List PatternId} {id : PatternId} {fault : CompileFault} :
      id ∉ finished → raw.check path id = .error fault →
      Traverses raw path finished (id :: rest) (.error ⟨fault, id⟩)
  | inner {path finished rest refs : List PatternId} {id : PatternId} {e : CompileError} :
      id ∉ finished → raw.check path id = .ok refs →
      Traverses raw (id :: path) finished refs (.error e) →
      Traverses raw path finished (id :: rest) (.error e)
  | next {path finished finished' rest refs : List PatternId} {id : PatternId}
      {out : Except CompileError (List PatternId)} :
      id ∉ finished → raw.check path id = .ok refs →
      Traverses raw (id :: path) finished refs (.ok finished') →
      Traverses raw path (id :: finished') rest out →
      Traverses raw path finished (id :: rest) out

def Suffers (raw : RawPattern) (id : PatternId) : CompileFault → Prop
  | .cycle => TransGen raw.Refers id id
  | .dangling => raw.get? id = none
  | .emptyRuleSet =>
    ∃ node rule, raw.get? id = some node ∧ node.rule = .search rule ∧ rule.rules = []

variable {raw : RawPattern} {path met finished refs : List PatternId} {id : PatternId}
  {fault : CompileFault} {e : CompileError} {out out' : Except CompileError (List PatternId)}

theorem check_of_mem (h : id ∈ path) : raw.check path id = .error .cycle :=
  if_pos h

/-- Off the path, checking a slot is checking it on its own. -/
theorem enter_eq_check (h : id ∉ path) :
    raw.enter id = (raw.check path id).mapError fun fault ↦ ⟨fault, id⟩ := by
  unfold enter check
  rw [if_neg h]
  cases raw.get? id with
  | none => rfl
  | some node => obtain ⟨name, rule | ⟨_ | ⟨q, qs⟩, exact, operator⟩⟩ := node <;> rfl

theorem check_of_enter_error (h : id ∉ path) (he : raw.enter id = .error e) :
    ∃ fault, raw.check path id = .error fault ∧ e = ⟨fault, id⟩ := by
  rw [enter_eq_check h] at he
  cases hc : raw.check path id with
  | error fault =>
    rw [hc] at he
    cases he
    exact ⟨fault, rfl, rfl⟩
  | ok refs =>
    rw [hc] at he
    cases he

theorem check_of_enter_ok (h : id ∉ path) (he : raw.enter id = .ok refs) :
    raw.check path id = .ok refs := by
  rw [enter_eq_check h] at he
  cases hc : raw.check path id with
  | error fault =>
    rw [hc] at he
    cases he
  | ok refs' =>
    rw [hc] at he
    cases he
    rfl

theorem refers_of_check (h : raw.check path id = .ok refs) : ∀ q ∈ refs, raw.Refers id q := by
  have hp : id ∉ path := by
    intro hm
    rw [check_of_mem hm] at h
    cases h
  have he : raw.enter id = .ok refs := by
    rw [enter_eq_check hp, h]
    rfl
  exact fun q hq ↦ (mem_iff_refers he).mp hq

/-- A slot that is refused has the fault, if it can be reached from every slot of the path. -/
theorem suffers_of_check (hp : ∀ p ∈ path, TransGen raw.Refers p id)
    (h : raw.check path id = .error fault) : raw.Suffers id fault := by
  unfold check at h
  split at h
  · next hm =>
    cases h
    exact hp id hm
  · split at h
    · next hg =>
      cases h
      exact hg
    · next hg =>
      cases h
      exact ⟨_, _, hg, rfl, rfl⟩
    · cases h

structure Tracks (path finished met : List PatternId) : Prop where
  mem_iff : ∀ id, id ∈ met ↔ id ∈ path ∨ id ∈ finished
  disjoint : ∀ id ∈ path, id ∉ finished

theorem Tracks.enter (h : Tracks path finished met) (hm : id ∉ met) :
    Tracks (id :: path) finished (id :: met) := by
  refine ⟨fun q ↦ ?_, List.forall_mem_cons.mpr ⟨?_, h.disjoint⟩⟩
  · rw [List.mem_cons, List.mem_cons, h.mem_iff q, or_assoc]
  · exact fun hf ↦ hm ((h.mem_iff id).mpr (.inr hf))

theorem Tracks.leave (h : Tracks (id :: path) finished met) (hp : id ∉ path) :
    Tracks path (id :: finished) met := by
  refine ⟨fun q ↦ ?_, fun q hq hf ↦ ?_⟩
  · rw [h.mem_iff q, List.mem_cons, List.mem_cons, or_assoc]
    exact or_left_comm
  · rcases List.mem_cons.mp hf with rfl | hf
    · exact hp hq
    · exact h.disjoint q (.tail _ hq) hf

inductive EndsAlike (path : List PatternId) :
    Except CompileError (List PatternId) → Except CompileError (List PatternId) → Prop
  | error (e : CompileError) : EndsAlike path (.error e) (.error e)
  | ok {met finished : List PatternId} :
      Tracks path finished met → EndsAlike path (.ok met) (.ok finished)

theorem Explores.traverses (h : Explores raw path met refs out) (ht : Tracks path finished met) :
    ∃ out', Traverses raw path finished refs out' ∧ EndsAlike path out out' := by
  induction h generalizing finished with
  | done path met => exact ⟨_, .done path finished, .ok ht⟩
  | cycle hc => exact ⟨_, .fault (ht.disjoint _ hc) (check_of_mem hc), .error _⟩
  | @old path met rest child out hp hm _ ih =>
    have hf : child ∈ finished := ((ht.mem_iff child).mp hm).resolve_left hp
    obtain ⟨out', hw, hend⟩ := ih ht
    exact ⟨out', .skip hf hw, hend⟩
  | @fault path met rest child e hp hm he =>
    have hf : child ∉ finished := fun hf ↦ hm ((ht.mem_iff child).mpr (.inr hf))
    obtain ⟨fault, hc, rfl⟩ := check_of_enter_error hp he
    exact ⟨_, .fault hf hc, .error _⟩
  | @inner path met rest refs child e hp hm he _ ih =>
    have hf : child ∉ finished := fun hf ↦ hm ((ht.mem_iff child).mpr (.inr hf))
    obtain ⟨out', hw, hend⟩ := ih (ht.enter hm)
    cases hend
    exact ⟨_, .inner hf (check_of_enter_ok hp he) hw, .error e⟩
  | @next path met met' rest refs child out hp hm he _ _ ih₁ ih₂ =>
    have hf : child ∉ finished := fun hf ↦ hm ((ht.mem_iff child).mpr (.inr hf))
    obtain ⟨out₁, hw₁, hend₁⟩ := ih₁ (ht.enter hm)
    cases hend₁ with
    | ok ht' =>
      obtain ⟨out₂, hw₂, hend₂⟩ := ih₂ (ht'.leave hp)
      exact ⟨out₂, .next hf (check_of_enter_ok hp he) hw₁ hw₂, hend₂⟩

/-- The walk has only one end. -/
theorem Traverses.unique (h : Traverses raw path finished refs out)
    (h' : Traverses raw path finished refs out') : out = out' := by
  induction h generalizing out' with
  | done =>
    cases h'
    rfl
  | skip hf _ ih =>
    cases h' with
    | skip _ h' => exact ih h'
    | fault hn | inner hn | next hn => exact absurd hf hn
  | fault hn hc =>
    cases h' with
    | skip hf => exact absurd hf hn
    | fault _ hc' =>
      rw [hc] at hc'
      cases hc'
      rfl
    | inner _ hc' | next _ hc' =>
      rw [hc] at hc'
      cases hc'
  | inner hn hc _ ih =>
    cases h' with
    | skip hf => exact absurd hf hn
    | fault _ hc' =>
      rw [hc] at hc'
      cases hc'
    | inner _ hc' h' =>
      rw [hc] at hc'
      cases hc'
      exact congrArg Except.error (Except.error.inj (ih h'))
    | next _ hc' h' =>
      rw [hc] at hc'
      cases hc'
      cases ih h'
  | next hn hc _ _ ih₁ ih₂ =>
    cases h' with
    | skip hf => exact absurd hf hn
    | fault _ hc' =>
      rw [hc] at hc'
      cases hc'
    | inner _ hc' h₁ =>
      rw [hc] at hc'
      cases hc'
      cases ih₁ h₁
    | next _ hc' h₁ h₂ =>
      rw [hc] at hc'
      cases hc'
      cases ih₁ h₁
      exact ih₂ h₂

/-- The fault at which a walk ends is at a slot that the references lead to. -/
theorem Traverses.suffers (h : Traverses raw path finished refs out) (ho : out = .error e)
    (hp : ∀ p ∈ path, ∀ q ∈ refs, TransGen raw.Refers p q) :
    (∃ q ∈ refs, ReflTransGen raw.Refers q e.slot) ∧ raw.Suffers e.slot e.fault := by
  induction h with
  | done => cases ho
  | skip _ _ ih =>
    obtain ⟨⟨q, hq, hr⟩, hs⟩ := ih ho fun p hm q hq ↦ hp p hm q (.tail _ hq)
    exact ⟨⟨q, .tail _ hq, hr⟩, hs⟩
  | @fault path finished rest id fault _ hc =>
    cases ho
    exact ⟨⟨id, List.mem_cons_self, .refl⟩,
      suffers_of_check (fun p hm ↦ hp p hm id List.mem_cons_self) hc⟩
  | @inner path finished rest refs id _ _ hc _ ih =>
    have hrefs := refers_of_check hc
    obtain ⟨⟨q, hq, hr⟩, hs⟩ := ih ho fun p hm q hq ↦ by
      rcases List.mem_cons.mp hm with rfl | hm
      · exact .single (hrefs q hq)
      · exact (hp p hm id List.mem_cons_self).tail (hrefs q hq)
    exact ⟨⟨id, List.mem_cons_self, .head (hrefs q hq) hr⟩, hs⟩
  | next _ _ _ _ _ ih =>
    obtain ⟨⟨q, hq, hr⟩, hs⟩ := ih ho fun p hm q hq ↦ hp p hm q (.tail _ hq)
    exact ⟨⟨q, .tail _ hq, hr⟩, hs⟩

/-- The walk behind a check of a pattern begins with a reference to its root. -/
theorem explores_root (raw : RawPattern) :
    ∃ out, Explores raw [] [] [raw.root] out ∧ raw.discoveryOrder = out.map List.reverse := by
  have hp : raw.root ∉ ([] : List PatternId) := List.not_mem_nil
  rcases discoveryOrder_cases raw with ⟨e, he, hd⟩ | ⟨refs, he, ⟨e, hx, hd⟩ | ⟨met, hx, hd⟩⟩
  · exact ⟨_, .fault hp hp he, hd⟩
  · exact ⟨_, .inner hp hp he hx, hd⟩
  · exact ⟨_, .next hp hp he hx (.done [] met), hd⟩

theorem compile_eq_error_iff : raw.compile = .error e ↔ raw.discoveryOrder = .error e := by
  unfold compile
  cases raw.discoveryOrder with
  | error e' => simp [bind, Except.bind]
  | ok order => simp [bind, Except.bind, pure, Except.pure]

/-- The walk from the root ends as compiling does. -/
theorem traverses_compile (raw : RawPattern) :
    (∃ e, raw.compile = .error e ∧ Traverses raw [] [] [raw.root] (.error e)) ∨
      ((∃ p, raw.compile = .ok p) ∧ ∃ finished, Traverses raw [] [] [raw.root] (.ok finished)) := by
  obtain ⟨out, hx, hd⟩ := explores_root raw
  have ht : Tracks [] [] [] := ⟨by simp, by simp⟩
  obtain ⟨out', hw, hend⟩ := hx.traverses ht
  cases hend with
  | error e => exact .inl ⟨e, compile_eq_error_iff.mpr hd, hw⟩
  | @ok met finished _ =>
    refine .inr ⟨?_, finished, hw⟩
    cases hc : raw.compile with
    | error e =>
      rw [compile_eq_error_iff, hd] at hc
      cases hc
    | ok p => exact ⟨p, rfl⟩

theorem compile_eq_error_iff_traverses :
    raw.compile = .error e ↔ Traverses raw [] [] [raw.root] (.error e) := by
  obtain ⟨e', hc, hw⟩ | ⟨⟨p, hc⟩, finished, hw⟩ := traverses_compile raw
  · rw [hc]
    constructor
    · intro h
      cases h
      exact hw
    · intro h
      cases hw.unique h
      rfl
  · rw [hc]
    constructor
    · intro h
      cases h
    · intro h
      cases hw.unique h

theorem exists_compile_iff_traverses :
    (∃ p, raw.compile = .ok p) ↔ ∃ finished, Traverses raw [] [] [raw.root] (.ok finished) := by
  obtain ⟨e, hc, hw⟩ | ⟨hp, hw⟩ := traverses_compile raw
  · constructor
    · intro ⟨p, h⟩
      rw [hc] at h
      cases h
    · intro ⟨finished, h⟩
      cases hw.unique h
  · exact iff_of_true hp hw

/-- Compiling reports the fault that the walk by recursion from the root meets first, and accepts
the patterns through which the walk comes without a fault. The slot that is reported can be reached
from the root and has the fault. -/
theorem compile_reports_first (raw : RawPattern) :
    (∀ e, raw.compile = .error e ↔ Traverses raw [] [] [raw.root] (.error e)) ∧
    ((∃ p, raw.compile = .ok p) ↔ ∃ finished, Traverses raw [] [] [raw.root] (.ok finished)) ∧
    ∀ e, raw.compile = .error e → raw.Reachable e.slot ∧ raw.Suffers e.slot e.fault := by
  refine ⟨fun e ↦ compile_eq_error_iff_traverses, exists_compile_iff_traverses, fun e he ↦ ?_⟩
  have hw := compile_eq_error_iff_traverses.mp he
  obtain ⟨⟨q, hq, hr⟩, hs⟩ := hw.suffers rfl (by simp)
  rw [List.mem_singleton.mp hq] at hr
  exact ⟨hr, hs⟩

end RawPattern

/-- A pattern with a fault of each kind. Its root refers to an identifier, to a search that refers
to the identifier again and to a search without sub-rules, to itself, and to a slot that is not
there. -/
def Sample.faultyPattern : RawPattern :=
  let (ident, b) := Builder.empty.add ⟨some "ident", .literal ⟨some "Ident", []⟩⟩
  let (empty, b) := b.add ⟨none, .search ⟨[], false, .anyOf⟩⟩
  let (inner, b) := b.add ⟨none, .search ⟨[ident, empty], false, .anyOf⟩⟩
  let (root, b) := b.reserve
  let b := b.define root ⟨none, .search ⟨[ident, inner, root, 9], false, .anyOf⟩⟩
  b.build root

theorem RawPattern.compile_reports_first_faulty :
    Sample.faultyPattern.compile = .error ⟨.emptyRuleSet, 1⟩ ∧ Sample.faultyPattern.Reachable 1 ∧
      Sample.faultyPattern.Suffers 1 .emptyRuleSet ∧ Sample.faultyPattern.Suffers 3 .cycle ∧
      Sample.faultyPattern.Suffers 9 .dangling := by
  obtain ⟨hiff, -, hfault⟩ := compile_reports_first Sample.faultyPattern
  have hcompile : Sample.faultyPattern.compile = .error ⟨.emptyRuleSet, 1⟩ := by
    rw [hiff]
    have hident : Traverses Sample.faultyPattern [0, 3] [] [] (.ok []) := .done _ _
    have hinner : Traverses Sample.faultyPattern [2, 3] [0] [0, 1] (.error ⟨.emptyRuleSet, 1⟩) :=
      .skip (by decide) (.fault (by decide) rfl)
    have hroot : Traverses Sample.faultyPattern [3] [] [0, 2, 3, 9] (.error ⟨.emptyRuleSet, 1⟩) :=
      .next (by decide) rfl hident (.inner (by decide) rfl hinner)
    exact .inner (by decide) rfl hroot
  obtain ⟨hreach, hempty⟩ := hfault _ hcompile
  have hcycle : Sample.faultyPattern.Refers 3 3 := ⟨_, rfl, by decide⟩
  exact ⟨hcompile, hreach, hempty, .single hcycle, rfl⟩

end TreePattern
