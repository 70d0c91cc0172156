import TreePattern.Proofs.Pattern.Postorder

namespace TreePattern

namespace RawPattern

variable {raw : RawPattern} {path finished ids listed : List PatternId} {id : PatternId}
  {node : PatternNode} {p : Pattern}

def FirstEmpty (raw : RawPattern) (listed : List PatternId) (id : PatternId) : Prop :=
  ∃ before after, listed = before ++ id :: after ∧ raw.Suffers id .emptyRuleSet ∧
    ∀ q ∈ before, ¬ raw.Suffers q .emptyRuleSet

theorem FirstEmpty.append_right (h : raw.FirstEmpty listed id) (more : List PatternId) :
    raw.FirstEmpty (listed ++ more) id := by
  obtain ⟨before, after, rfl, hempty, hbefore⟩ := h
  exact ⟨before, after ++ more, by simp, hempty, hbefore⟩

theorem FirstEmpty.append_left {less : List PatternId} (h : raw.FirstEmpty listed id)
    (hless : ∀ q ∈ less, ¬ raw.Suffers q .emptyRuleSet) : raw.FirstEmpty (less ++ listed) id := by
  obtain ⟨before, after, rfl, hempty, hbefore⟩ := h
  refine ⟨less ++ before, after, by simp, hempty, fun q hq ↦ ?_⟩
  exact (List.mem_append.mp hq).elim (hless q) (hbefore q)

theorem check_of_suffers (hp : id ∉ path) (h : raw.Suffers id .emptyRuleSet) :
    raw.check path id = .error .emptyRuleSet := by
  obtain ⟨⟨name, _⟩, ⟨rules, exact, operator⟩, hg, rfl, rfl⟩ := h
  simp only [check, if_neg hp, hg]

theorem check_of_not_suffers (hp : id ∉ path) (hg : raw.get? id = some node)
    (h : ¬ raw.Suffers id .emptyRuleSet) : raw.check path id = .ok node.references := by
  obtain ⟨name, rule | ⟨_ | ⟨q, rest⟩, exact, operator⟩⟩ := node
  · simp only [check, if_neg hp, hg]
  · exact absurd ⟨_, _, hg, rfl, rfl⟩ h
  · simp only [check, if_neg hp, hg]

/-- A walk through rules that are a tree ends at the first search without sub-rules that it meets,
and ends well if it meets none. -/
theorem Walks.traverses (h : raw.Walks ids listed) (hn : listed.Nodup) (hp : ∀ q ∈ listed, q ∉ path)
    (hf : ∀ q ∈ listed, q ∉ finished) :
    (∃ id, raw.FirstEmpty listed id ∧
      Traverses raw path finished ids (.error ⟨.emptyRuleSet, id⟩)) ∨
      (∀ q ∈ listed, ¬ raw.Suffers q .emptyRuleSet) ∧
        ∃ finished', Traverses raw path finished ids (.ok finished') ∧
          ∀ q ∈ finished', q ∈ finished ∨ q ∈ listed := by
  -- The path and the finished rules grow on the way, but hold no rule that is still to be listed.
  induction h generalizing path finished with
  | nil => exact .inr ⟨by simp, finished, .done path finished, fun q hq ↦ .inl hq⟩
  | @cons id rest below others node hg _ _ ihb iho =>
    obtain ⟨hid, hn⟩ := List.nodup_cons.mp hn
    obtain ⟨hnb, hno, hdisjoint⟩ := List.nodup_append'.mp hn
    rw [List.mem_append, not_or] at hid
    simp only [List.forall_mem_cons, List.forall_mem_append] at hp hf
    obtain ⟨hpid, hpb, hpo⟩ := hp
    obtain ⟨hfid, hfb, hfo⟩ := hf
    by_cases hempty : raw.Suffers id .emptyRuleSet
    · refine .inl ⟨id, ⟨[], below ++ others, rfl, hempty, by simp⟩, ?_⟩
      exact .fault hfid (check_of_suffers hpid hempty)
    · have hcheck := check_of_not_suffers hpid hg hempty
      have hbelow : ∀ q ∈ below, q ∉ id :: path := by
        intro q hq hm
        rcases List.mem_cons.mp hm with rfl | hm
        · exact hid.1 hq
        · exact hpb q hq hm
      rcases ihb hnb hbelow hfb with ⟨q, hfirst, hw⟩ | ⟨hnone, finished₁, hw, hmem⟩
      · refine .inl ⟨q, ?_, .inner hfid hcheck hw⟩
        have hless : ∀ q ∈ [id], ¬ raw.Suffers q .emptyRuleSet := by simpa using hempty
        exact (hfirst.append_right others).append_left hless
      · have hothers : ∀ q ∈ others, q ∉ id :: finished₁ := by
          intro q hq hm
          rcases List.mem_cons.mp hm with rfl | hm
          · exact hid.2 hq
          · rcases hmem q hm with hm | hm
            · exact hfo q hq hm
            · exact hdisjoint hm hq
        have hless : ∀ q ∈ id :: below, ¬ raw.Suffers q .emptyRuleSet :=
          List.forall_mem_cons.mpr ⟨hempty, hnone⟩
        rcases iho hno hpo hothers with ⟨q, hfirst, hw'⟩ | ⟨hnone', finished₂, hw', hmem'⟩
        · exact .inl ⟨q, hfirst.append_left hless, .next hfid hcheck hw hw'⟩
        · refine .inr ⟨?_, finished₂, .next hfid hcheck hw hw', fun q hq ↦ ?_⟩
          · rw [← List.cons_append, List.forall_mem_append]
            exact ⟨hless, hnone'⟩
          · rcases hmem' q hq with hm | hm
            · rcases List.mem_cons.mp hm with rfl | hm
              · simp
              · have h := hmem q hm
                simp only [List.mem_cons, List.mem_append]
                tauto
            · simp [hm]

theorem FirstEmpty.unique {id' : PatternId} (h : raw.FirstEmpty listed id)
    (h' : raw.FirstEmpty listed id') : id = id' := by
  obtain ⟨before, after, rfl, hempty, hbefore⟩ := h
  obtain ⟨before', after', heq, hempty', hbefore'⟩ := h'
  rcases List.append_eq_append_iff.mp heq with ⟨more, rfl, hmore⟩ | ⟨more, rfl, hmore⟩
  · cases more with
    | nil => exact (List.cons.inj hmore).1
    | cons q more =>
      obtain ⟨rfl, -⟩ := List.cons.inj hmore
      exact absurd hempty (hbefore' id (by simp))
  · cases more with
    | nil => exact (List.cons.inj hmore).1.symm
    | cons q more =>
      obtain ⟨rfl, -⟩ := List.cons.inj hmore
      exact absurd hempty' (hbefore id' (by simp))

theorem compile_eq_error_iff_firstEmpty {e : CompileError} (hw : raw.Walks [raw.root] listed)
    (hn : listed.Nodup) :
    raw.compile = .error e ↔ ∃ id, raw.FirstEmpty listed id ∧ e = ⟨.emptyRuleSet, id⟩ := by
  have hfresh : ∀ q ∈ listed, q ∉ ([] : List PatternId) := by simp
  have hfault := hw.traverses hn hfresh hfresh
  rw [compile_eq_error_iff_traverses]
  constructor
  · intro he
    rcases hfault with ⟨id, hfirst, ht⟩ | ⟨-, finished, ht, -⟩
    · cases he.unique ht
      exact ⟨id, hfirst, rfl⟩
    · cases he.unique ht
  · intro he
    obtain ⟨id, hfirst, rfl⟩ := he
    rcases hfault with ⟨id', hfirst', ht⟩ | ⟨hnone, -⟩
    · exact hfirst.unique hfirst' ▸ ht
    · obtain ⟨before, after, rfl, hempty, -⟩ := hfirst
      exact absurd hempty (hnone id (by simp))

theorem exists_compile_iff_of_nodup (hw : raw.Walks [raw.root] listed) (hn : listed.Nodup) :
    (∃ p, raw.compile = .ok p) ↔ ∀ q ∈ listed, ¬ raw.Suffers q .emptyRuleSet := by
  have hfresh : ∀ q ∈ listed, q ∉ ([] : List PatternId) := by simp
  have hfault := hw.traverses hn hfresh hfresh
  rw [exists_compile_iff_traverses]
  rcases hfault with ⟨id, ⟨before, after, rfl, hempty, -⟩, ht⟩ | ⟨hnone, finished, ht, -⟩
  · apply iff_of_false
    · intro hok
      obtain ⟨finished, hok⟩ := hok
      cases hok.unique ht
    · exact fun hnone ↦ hnone id (by simp) hempty
  · exact iff_of_true ⟨finished, ht⟩ hnone

theorem firsts_eq_self (h : listed.Nodup) : firsts listed = listed := by
  induction listed using List.reverseRecOn with
  | nil => rfl
  | append_singleton listed last ih =>
    obtain ⟨hn, -, hdisjoint⟩ := List.nodup_append'.mp h
    have hlast : last ∉ listed := fun hm ↦ hdisjoint hm (List.mem_singleton_self last)
    rw [firsts_append_singleton, ih hn, if_neg hlast]

/-- Compiling rules that are a tree keeps all of them and numbers them in pre-order. -/
theorem compile_bisimilar_of_nodup (hw : raw.Walks [raw.root] listed) (hn : listed.Nodup)
    (h : raw.compile = .ok p) : p.size = listed.length ∧
      ∀ k id, listed[k]? = some id → Bisimilar raw.get? p.get? id k := by
  obtain ⟨order, hd, hl, hsize, hget⟩ := compile_eq_ok h
  obtain ⟨listed', hw', rfl⟩ := discoveryOrder_eq_firsts hd
  -- Nothing is listed twice, so nothing is dropped from the order of discovery.
  cases hw'.unique hw
  rw [firsts_eq_self hn] at hl hsize hget
  refine ⟨hsize, fun k id hk ↦ ⟨fun j l ↦ raw.Reachable j ∧ l = listed.idxOf j, ⟨?_, ?_⟩, ?_⟩⟩
  · exact hl.reached id (List.mem_of_getElem? hk)
  · obtain ⟨hlt, rfl⟩ := List.getElem?_eq_some_iff.mp hk
    exact (hn.idxOf_getElem k hlt).symm
  · intro i l hi
    obtain ⟨hi, rfl⟩ := hi
    exact hl.sameSlots hget hi

theorem refers_of_mem_references (h : id ∈ raw.references) :
    ∃ holder : ℕ, raw.Refers holder id := by
  obtain ⟨slot, hslot, hid⟩ := List.mem_flatMap.mp h
  cases slot with
  | none => cases hid
  | some node =>
    obtain ⟨holder, hlt, hget⟩ := List.getElem_of_mem hslot
    refine ⟨holder, node, ?_, hid⟩
    rw [get?, Array.getElem?_toList.symm, List.getElem?_eq_getElem hlt, hget, Option.join_some]

/-- The rules of a pattern are a tree in post-order: every slot is filled and refers to smaller
slots, the root is the last one, and every other slot is referenced once. -/
structure Postordered (raw : RawPattern) : Prop where
  defined : ∀ id < raw.size, ∃ node, raw.get? id = some node
  smaller : ∀ id q, raw.Refers id q → q < id
  root : raw.root + 1 = raw.size
  once : ∀ id < raw.size, id ≠ raw.root → raw.references.count id = 1

theorem postordered_of_grows {b : Builder} {root count : ℕ}
    (h : Builder.empty.Grows b count [root]) : (b.build root).Postordered := by
  have hsize : b.slots.size = count := by simpa [Builder.empty] using h.size
  obtain ⟨inner, hinner, hperm⟩ := h.referenced
  have hreferences : (b.build root).references = inner := by
    simpa [references, Builder.build, Builder.empty] using hinner
  have hperm : ((b.build root).references ++ [root]).Perm (List.range count) := by
    rw [hreferences, List.range_eq_range']
    exact hperm
  have hdefined : ∀ id < count, ∃ node, (b.build root).get? id = some node ∧
      ∀ q ∈ node.references, q < id := by
    intro id hid
    exact h.defined id (Nat.zero_le _) (hsize ▸ hid)
  have hsmaller : ∀ id q, (b.build root).Refers id q → q < id := by
    intro id q hr
    obtain ⟨node, hg, hq⟩ := hr
    obtain ⟨node', hg', hlt⟩ := hdefined id (hsize ▸ get?_lt hg)
    rw [hg] at hg'
    cases hg'
    exact hlt q hq
  have hroot : root < count := List.mem_range.mp (hperm.subset (by simp))
  refine ⟨fun id hid ↦ ?_, hsmaller, ?_, fun id hid hne ↦ ?_⟩
  · obtain ⟨node, hg, -⟩ := hdefined id (hsize ▸ hid)
    exact ⟨node, hg⟩
  · -- The last slot is referenced or the root, and a reference to it would come from behind it.
    have hlast : count - 1 ∈ (b.build root).references ++ [root] :=
      hperm.symm.subset (List.mem_range.mpr (by omega))
    have heq : root = count - 1 := by
      rcases List.mem_append.mp hlast with hm | hm
      · obtain ⟨holder, hr⟩ := refers_of_mem_references hm
        have hlt : count - 1 < holder := hsmaller _ _ hr
        obtain ⟨node, hg, -⟩ := hr
        have hbound : holder < count := hsize ▸ get?_lt hg
        omega
      · exact (List.mem_singleton.mp hm).symm
    change root + 1 = b.slots.size
    omega
  · change id ≠ root at hne
    have hcount := hperm.count_eq id
    have hid : id ∈ List.range count := List.mem_range.mpr (hsize ▸ hid)
    have hsingle : [root].count id = 0 := List.count_eq_zero.mpr (by simpa using hne)
    rw [List.count_append, hsingle, List.count_eq_one_of_mem List.nodup_range hid] at hcount
    exact hcount

variable {document : Json}

theorem grows_of_ofJson (h : ofJson document = .ok raw) :
    ∃ b root count, raw = b.build root ∧ Builder.empty.Grows b count [root] := by
  obtain ⟨⟨root, b⟩, hload, hbuild⟩ := exceptBind_eq_ok.mp h
  cases hbuild
  obtain ⟨count, roots, hgrows, rfl⟩ := Pattern.Loader.node_plants document [] _ _ _ hload
  exact ⟨b, root, count, rfl, hgrows⟩

/-- A walk from the root of a loaded pattern lists every slot once, in the order of the patterns in
the document. -/
theorem exists_walks_of_ofJson (h : ofJson document = .ok raw) :
    ∃ listed, raw.Walks [raw.root] listed ∧ listed.Perm (List.range raw.size) ∧
      List.Forall₂ (Describes raw.get?) document.patternObjects listed := by
  have hdescribes := (ofJson_describes document).2 raw h
  obtain ⟨b, root, count, rfl, hgrows⟩ := grows_of_ofJson h
  obtain ⟨listed, hw, hperm⟩ := hgrows.walks b root (.refl b)
  refine ⟨listed, hw, ?_, ?_⟩
  · have hslots : b.slots.size = count := by simpa [Builder.empty] using hgrows.size
    have hsize : (b.build root).size = count := hslots
    rw [hsize, List.range_eq_range']
    exact hperm
  · simpa using hw.describes (.cons hdescribes .nil)

theorem exists_getElem?_of_forall₂ {α β : Type} {R : α → β → Prop} {as : List α} {bs : List β}
    (h : List.Forall₂ R as bs) {i : ℕ} {b : β} (hb : bs[i]? = some b) :
    ∃ a, as[i]? = some a ∧ R a b := by
  obtain ⟨hi, rfl⟩ := List.getElem?_eq_some_iff.mp hb
  have hlt : i < as.length := h.length_eq ▸ hi
  exact ⟨as[i], List.getElem?_eq_getElem hlt, h.get hlt hi⟩

/-- The first search without sub-rules in a walk is the first one in the document. -/
theorem firstEmpty_iff {documents : List Json}
    (hd : List.Forall₂ (Describes raw.get?) documents listed) : raw.FirstEmpty listed id ↔
      ∃ (i : ℕ) (object : Json), documents[i]? = some object ∧ listed[i]? = some id ∧
        object.LacksRules ∧ ∀ j < i, ∀ other : Json, documents[j]? = some other →
          ¬ other.LacksRules := by
  constructor
  · intro h
    obtain ⟨before, after, rfl, hempty, hbefore⟩ := h
    have hid : (before ++ id :: after)[before.length]? = some id := by simp
    obtain ⟨object, hobject, hdescribes⟩ := exists_getElem?_of_forall₂ hd hid
    refine ⟨before.length, object, hobject, hid, hdescribes.lacksRules_iff.mpr hempty, ?_⟩
    intro j hj other hother hlacks
    have hq : (before ++ id :: after)[j]? = some before[j] := by
      rw [List.getElem?_append_left hj, List.getElem?_eq_getElem hj]
    obtain ⟨other', hother', hdescribes'⟩ := exists_getElem?_of_forall₂ hd hq
    rw [hother] at hother'
    cases hother'
    exact hbefore before[j] (List.getElem_mem hj) (hdescribes'.lacksRules_iff.mp hlacks)
  · intro h
    obtain ⟨i, object, hobject, hid, hlacks, hfirst⟩ := h
    obtain ⟨object', hobject', hdescribes⟩ := exists_getElem?_of_forall₂ hd hid
    rw [hobject] at hobject'
    cases hobject'
    obtain ⟨hi, hget⟩ := List.getElem?_eq_some_iff.mp hid
    refine ⟨listed.take i, listed.drop (i + 1), ?_, hdescribes.lacksRules_iff.mp hlacks, ?_⟩
    · rw [← hget, ← List.drop_eq_getElem_cons hi, List.take_append_drop]
    · intro q hq hsuffers
      obtain ⟨j, hj, rfl⟩ := List.mem_take_iff_getElem.mp hq
      have hj' : j < i ∧ j < listed.length := by omega
      obtain ⟨other, hother, hdescribes'⟩ :=
        exists_getElem?_of_forall₂ hd (List.getElem?_eq_getElem hj'.2)
      exact hfirst j hj'.1 other hother (hdescribes'.lacksRules_iff.mpr hsuffers)

/-- The rules of a loaded pattern are a tree in post-order, one for each pattern in the document.
They compile just if each search among those has sub-rules, and otherwise the first one without is
reported, by its slot: neither a cycle nor an empty slot is met. Compiling keeps all rules and
numbers them in the order of the document. -/
theorem ofJson_postorder (h : ofJson document = .ok raw) :
    raw.Postordered ∧ raw.size = document.patternObjects.length ∧
    ∃ listed, raw.Walks [raw.root] listed ∧ listed.Perm (List.range raw.size) ∧
      List.Forall₂ (Describes raw.get?) document.patternObjects listed ∧
      (∀ e, raw.compile = .error e ↔ ∃ (i : ℕ) (object : Json) (id : PatternId),
        document.patternObjects[i]? = some object ∧ listed[i]? = some id ∧ object.LacksRules ∧
        (∀ j < i, ∀ other : Json, document.patternObjects[j]? = some other → ¬ other.LacksRules) ∧
        e = ⟨.emptyRuleSet, id⟩) ∧
      ((∃ p, raw.compile = .ok p) ↔ ∀ object ∈ document.patternObjects, ¬ object.LacksRules) ∧
      ∀ p, raw.compile = .ok p → p.size = raw.size ∧
        ∀ (i : ℕ) (object : Json), document.patternObjects[i]? = some object →
          Describes p.get? object i := by
  obtain ⟨listed, hw, hperm, hdescribes⟩ := exists_walks_of_ofJson h
  have hn : listed.Nodup := hperm.nodup_iff.mpr List.nodup_range
  have hlength : listed.length = raw.size := by rw [hperm.length_eq, List.length_range]
  have hpost : raw.Postordered := by
    obtain ⟨b, root, count, rfl, hgrows⟩ := grows_of_ofJson h
    exact postordered_of_grows hgrows
  refine ⟨hpost, hlength.symm.trans hdescribes.length_eq.symm, listed, hw, hperm,
    hdescribes, ?_, ?_, ?_⟩
  · intro e
    rw [compile_eq_error_iff_firstEmpty hw hn]
    constructor
    · intro he
      obtain ⟨id, hfirst, rfl⟩ := he
      obtain ⟨i, object, hobject, hid, hlacks, hless⟩ := (firstEmpty_iff hdescribes).mp hfirst
      exact ⟨i, object, id, hobject, hid, hlacks, hless, rfl⟩
    · intro he
      obtain ⟨i, object, id, hobject, hid, hlacks, hless, rfl⟩ := he
      exact ⟨id, (firstEmpty_iff hdescribes).mpr ⟨i, object, hobject, hid, hlacks, hless⟩, rfl⟩
  · rw [exists_compile_iff_of_nodup hw hn]
    constructor
    · intro hnone object hm hlacks
      obtain ⟨i, hi, rfl⟩ := List.getElem_of_mem hm
      have hlt : i < listed.length := hdescribes.length_eq ▸ hi
      exact hnone _ (List.getElem_mem hlt) ((hdescribes.get hi hlt).lacksRules_iff.mp hlacks)
    · intro hnone q hm hempty
      obtain ⟨i, hlt, rfl⟩ := List.getElem_of_mem hm
      have hi : i < document.patternObjects.length := hdescribes.length_eq.symm ▸ hlt
      exact hnone _ (List.getElem_mem hi) ((hdescribes.get hi hlt).lacksRules_iff.mpr hempty)
  · intro p hp
    obtain ⟨hsize, hbisimilar⟩ := compile_bisimilar_of_nodup hw hn hp
    refine ⟨hsize.trans hlength, fun i object hobject ↦ ?_⟩
    obtain ⟨hi, rfl⟩ := List.getElem?_eq_some_iff.mp hobject
    have hlt : i < listed.length := hdescribes.length_eq ▸ hi
    exact (hdescribes.get hi hlt).of_bisimilar (hbisimilar i _ (List.getElem?_eq_getElem hlt))

def unfinished : Json :=
  .object [("NodeType", .string "MatchRule"), ("Rules", .array
    [.object [("NodeType", .string "Call"),
      ("Args", .array [.object [("NodeType", .string "MatchRule")]])],
      .object [("NodeType", .string "Ident")]])]

def unfinishedRules : RawPattern :=
  ⟨#[some ⟨none, .search ⟨[], false, .anyOf⟩⟩,
    some ⟨none, .literal ⟨some "Call", [("Args", .sequence [0])]⟩⟩,
    some ⟨none, .literal ⟨some "Ident", []⟩⟩, some ⟨none, .search ⟨[1, 2], false, .anyOf⟩⟩], 3⟩

theorem ofJson_postorder_unfinished : ofJson unfinished = .ok unfinishedRules ∧
    unfinishedRules.compile = .error ⟨.emptyRuleSet, 0⟩ ∧ unfinishedRules.Postordered ∧
    unfinishedRules.size = unfinished.patternObjects.length ∧
    ∃ object ∈ unfinished.patternObjects, object.LacksRules := by
  have hload : ofJson unfinished = .ok unfinishedRules := rfl
  have hfault : unfinishedRules.compile = .error ⟨.emptyRuleSet, 0⟩ := by
    have hcall : Traverses unfinishedRules [3] [] [1, 2] (.error ⟨.emptyRuleSet, 0⟩) :=
      .inner (by decide) rfl (.fault (by decide) rfl)
    exact compile_eq_error_iff_traverses.mpr (.inner (by decide) rfl hcall)
  obtain ⟨hpost, hsize, listed, -, -, -, herror, -⟩ := ofJson_postorder hload
  obtain ⟨i, object, id, hobject, -, hlacks, -⟩ := (herror _).mp hfault
  exact ⟨hload, hfault, hpost, hsize, object, List.mem_of_getElem? hobject, hlacks⟩

end RawPattern

end TreePattern
