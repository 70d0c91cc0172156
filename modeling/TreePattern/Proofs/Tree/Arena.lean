import Mathlib.Data.List.Nodup
import TreePattern.Proofs.Tree.Conversion

namespace TreePattern.Tree

open Json

variable {objects : List (List (String × Json))} {members : List (String × Json)}

def Slot.places : Slot → List Nat
  | .ready _ => []
  | .node place => [place]
  | .nodes places => places

def Slot.read (objects : List (List (String × Json))) : Slot → Field
  | .ready field => field
  | .node place => .node (nodeOf (objects.getD place []))
  | .nodes places => .nodes (places.map fun place ↦ nodeOf (objects.getD place []))

namespace Entry

def places (entry : Entry) : List Nat :=
  entry.fields.flatMap fun field ↦ field.2.places

structure Describes (objects : List (List (String × Json))) (members : List (String × Json))
    (entry : Entry) : Prop where
  kind : entry.kind = kindOf members
  fields : entry.fields.map (fun field ↦ (field.1, field.2.read objects)) = fieldsOf members

end Entry

/-- Objects have the places from `next` on. -/
def Placed (objects : List (List (String × Json))) (next : Nat)
    (added : List (List (String × Json))) : Prop :=
  ∀ k members, added[k]? = some members → objects[next + k]? = some members

theorem placed_append_iff {next : Nat} {xs ys : List (List (String × Json))} :
    Placed objects next (xs ++ ys) ↔ Placed objects next xs ∧
    Placed objects (next + xs.length) ys := by
  constructor
  · intro h
    refine ⟨fun k members hk ↦ h k members ?_, fun k members hk ↦ ?_⟩
    · have hlt := (List.getElem?_eq_some_iff.mp hk).1
      rwa [List.getElem?_append_left hlt]
    · rw [Nat.add_assoc]
      apply h
      rwa [List.getElem?_append_right (Nat.le_add_right _ _), Nat.add_sub_cancel_left]
  · rintro ⟨hx, hy⟩ k members hk
    by_cases hlt : k < xs.length
    · rw [List.getElem?_append_left hlt] at hk
      exact hx k members hk
    · rw [List.getElem?_append_right (Nat.not_lt.mp hlt)] at hk
      have hk' := hy (k - xs.length) members hk
      rwa [Nat.add_assoc, Nat.add_sub_of_le (Nat.not_lt.mp hlt)] at hk'

theorem placed_append_right (objects added : List (List (String × Json))) :
    Placed (objects ++ added) objects.length added := by
  intro k members hk
  rw [List.getElem?_append_right (Nat.le_add_right _ _), Nat.add_sub_cancel_left, hk]

theorem map_getD_of_placed {next : Nat} {added : List (List (String × Json))}
    (h : Placed objects next added) :
    (List.range' next added.length).map (fun place ↦ objects.getD place []) = added := by
  apply List.ext_getElem
  · rw [List.length_map, List.length_range']
  · intro k hk hk'
    have hplace := h k added[k] (List.getElem?_eq_getElem hk')
    simp [hplace]

namespace Arena

structure Reserves (a later : Arena) (added : List (List (String × Json))) : Prop where
  entries : later.entries = a.entries ++ Array.replicate added.length Entry.blank
  work : later.work = ((List.range' a.entries.size added.length).zip added).reverse ++ a.work

namespace Reserves

variable {a b c : Arena} {xs ys : List (List (String × Json))}

theorem refl (a : Arena) : a.Reserves a [] :=
  ⟨by simp, by simp⟩

theorem reserve (a : Arena) (members : List (String × Json)) :
    a.Reserves (a.reserve members) [members] :=
  ⟨Array.push_eq_append, rfl⟩

theorem size (h : a.Reserves b xs) : b.entries.size = a.entries.size + xs.length := by
  simp [h.entries]

theorem trans (h : a.Reserves b xs) (h' : b.Reserves c ys) : a.Reserves c (xs ++ ys) := by
  constructor
  · rw [h'.entries, h.entries, Array.append_assoc, Array.replicate_append_replicate,
      List.length_append]
  · have hrange : List.range' a.entries.size (xs ++ ys).length =
        List.range' a.entries.size xs.length ++ List.range' b.entries.size ys.length := by
      rw [h.size, List.length_append, List.range'_append_1]
    rw [h'.work, h.work, hrange, List.zip_append (by simp), List.reverse_append, List.append_assoc]

theorem places_work (h : a.Reserves b xs) :
    b.work.map (·.1) = (List.range' a.entries.size xs.length).reverse ++ a.work.map (·.1) := by
  rw [h.work, List.map_append, List.map_reverse, List.map_fst_zip (by simp)]

theorem objects_work (h : a.Reserves b xs) (hp : Placed objects a.entries.size xs)
    (ha : ∀ item ∈ a.work, objects[item.1]? = some item.2) :
    ∀ item ∈ b.work, objects[item.1]? = some item.2 := by
  intro item hi
  rw [h.work, List.mem_append, List.mem_reverse] at hi
  rcases hi with hi | hi
  · obtain ⟨k, hk⟩ := List.mem_iff_getElem?.mp hi
    obtain ⟨hplace, ho⟩ := List.getElem?_zip_eq_some.mp hk
    obtain ⟨hk, heq⟩ := List.getElem?_eq_some_iff.mp hplace
    rw [← heq, List.getElem_range', Nat.one_mul]
    exact hp k item.2 ho
  · exact ha item hi

theorem nodup_work (h : a.Reserves b xs) (hn : (a.work.map (·.1)).Nodup)
    (hlt : ∀ place ∈ a.work.map (·.1), place < a.entries.size) : (b.work.map (·.1)).Nodup := by
  rw [h.places_work, List.nodup_append]
  refine ⟨List.nodup_reverse.mpr List.nodup_range', hn, ?_⟩
  intro i hi j hj
  have hj := hlt j hj
  rw [List.mem_reverse, List.mem_range'_1] at hi
  omega

end Reserves

theorem reserveAll_reserves (items : List Json) (places : List Nat) (a : Arena) :
    ∃ added, a.Reserves (reserveAll items places a).2 added ∧
      (reserveAll items places a).1 =
        places.reverse ++ List.range' a.entries.size added.length ∧
      forestOf items = added.map nodeOf := by
  induction items generalizing places a with
  | nil => exact ⟨[], .refl a, by simp [reserveAll], by simp [forestOf]⟩
  | cons item rest ih =>
    cases item with
    | object members =>
      obtain ⟨added, hadded, hplaces, hforest⟩ :=
        ih (a.entries.size :: places) (a.reserve members)
      have hreserve := Reserves.reserve a members
      refine ⟨members :: added, hreserve.trans hadded, ?_, ?_⟩
      · rw [reserveAll, hplaces, hreserve.size]
        simp [List.range'_succ]
      · rw [forestOf_cons, hforest, List.map_cons]
    | null | bool | number | string | array =>
      obtain ⟨added, hadded, hplaces, hforest⟩ := ih places a
      refine ⟨added, ?_, ?_, ?_⟩
      · simpa only [reserveAll] using hadded
      · simpa only [reserveAll] using hplaces
      · rw [← hforest, forestOf]
        simp

inductive SlotOf (next : Nat) : List (List (String × Json)) → Option Field → Option Slot → Prop
  | none : SlotOf next [] none none
  | some {added : List (List (String × Json))} {field : Field} {slot : Slot} :
      slot.places = List.range' next added.length →
      (∀ objects, Placed objects next added → slot.read objects = field) →
      SlotOf next added (some field) (some slot)

theorem slot?_reserves (name : String) (value : Json) (a : Arena) :
    ∃ added, a.Reserves (slot? name value a).2 added ∧
      SlotOf a.entries.size added (fieldOf? name value) (slot? name value a).1 := by
  have hleaf : SlotOf a.entries.size [] (some (leafField name value))
      (some (.ready (leafField name value))) := .some rfl fun objects _ ↦ rfl
  cases value with
  | null =>
    rw [fieldOf?]
    exact ⟨[], .refl a, .none⟩
  | bool | number | string =>
    rw [fieldOf?]
    exact ⟨[], .refl a, hleaf⟩
  | object members =>
    rw [slot?]
    by_cases hnode : isNodeObject members = true
    · rw [if_pos hnode, fieldOf?_object hnode]
      refine ⟨[members], .reserve a members, .some rfl fun objects hp ↦ ?_⟩
      have hmembers : objects[a.entries.size]? = some members := hp 0 members rfl
      simp [Slot.read, hmembers]
    · rw [if_neg hnode, fieldOf?, if_neg hnode]
      exact ⟨[], .refl a, hleaf⟩
  | array items =>
    rw [slot?]
    by_cases hnodes : items.all isNode = true
    · rw [if_pos hnodes, fieldOf?_array hnodes]
      obtain ⟨added, hadded, hplaces, hforest⟩ := reserveAll_reserves items [] a
      rw [List.reverse_nil, List.nil_append] at hplaces
      refine ⟨added, hadded, .some hplaces fun objects hp ↦ ?_⟩
      have hnodes := congrArg (List.map nodeOf) (map_getD_of_placed hp)
      rw [List.map_map] at hnodes
      rw [Slot.read, hplaces, hforest, ← hnodes]
      rfl
    · rw [if_neg hnodes, fieldOf?, if_neg hnodes]
      exact ⟨[], .refl a, hleaf⟩

theorem slots_reserves (members : List (String × Json)) (found : List (String × Slot)) (a : Arena) :
    ∃ added new, a.Reserves (slots members found a).2 added ∧
      (slots members found a).1 = found.reverse ++ new ∧
      new.flatMap (fun field ↦ field.2.places) = List.range' a.entries.size added.length ∧
      ∀ objects, Placed objects a.entries.size added →
        new.map (fun field ↦ (field.1, field.2.read objects)) = fieldsOf members := by
  induction members generalizing found a with
  | nil =>
    refine ⟨[], [], .refl a, by simp [slots], rfl, fun objects _ ↦ ?_⟩
    rw [fieldsOf, List.map_nil]
  | cons entry rest ih =>
    obtain ⟨name, value⟩ := entry
    rw [slots, fieldsOf]
    by_cases hname : name = "NodeType"
    · rw [if_pos hname, if_pos hname]
      exact ih found a
    · rw [if_neg hname, if_neg hname]
      obtain ⟨added, hadded, hslot⟩ := slot?_reserves name value a
      generalize slot? name value a = result at hadded hslot
      generalize fieldOf? name value = converted at hslot
      obtain ⟨slot, later⟩ := result
      cases hslot with
      | none =>
        obtain ⟨others, new, hothers, hfound, hnew, hfields⟩ := ih found later
        have hsize : later.entries.size = a.entries.size := hadded.size
        rw [hsize] at hnew hfields
        exact ⟨others, new, hadded.trans hothers, hfound, hnew, hfields⟩
      | @some _ field slot hplaces hread =>
        obtain ⟨others, new, hothers, hfound, hnew, hfields⟩ := ih ((name, slot) :: found) later
        refine ⟨added ++ others, (name, slot) :: new, hadded.trans hothers, ?_, ?_, ?_⟩
        · simp [hfound]
        · rw [List.flatMap_cons, hplaces, hnew, hadded.size, List.length_append,
            List.range'_append_1]
        · intro objects hp
          rw [placed_append_iff, ← hadded.size] at hp
          rw [List.map_cons, hread objects hp.1, hfields objects hp.2]

/-- What holds of an arena while it is filled, given the objects of all places. -/
structure Sound (objects : List (List (String × Json))) (a : Arena) : Prop where
  size : objects.length = a.entries.size
  work : ∀ item ∈ a.work, objects[item.1]? = some item.2
  nodup : (a.work.map (·.1)).Nodup
  filled : ∀ (place : Nat) (entry : Entry), a.entries[place]? = some entry →
    place ∉ a.work.map (·.1) → entry.Describes objects (objects.getD place [])
  behind : ∀ (place : Nat) (entry : Entry), a.entries[place]? = some entry →
    ∀ child ∈ entry.places, place < child ∧ child < a.entries.size
  distinct : ∀ (place : Nat) (entry : Entry), a.entries[place]? = some entry → entry.places.Nodup
  once : ∀ (i j child : Nat) (x y : Entry), a.entries[i]? = some x → a.entries[j]? = some y →
    child ∈ x.places → child ∈ y.places → i = j

theorem Sound.start (members : List (String × Json)) :
    Sound [members] ⟨#[.blank], [(0, members)]⟩ := by
  have hentry {place : Nat} {entry : Entry} (h : #[Entry.blank][place]? = some entry) :
      place = 0 ∧ entry = .blank := by
    obtain ⟨hlt, heq⟩ := Array.getElem?_eq_some_iff.mp h
    have hzero : place = 0 := by simpa using hlt
    subst hzero
    exact ⟨rfl, heq.symm⟩
  constructor
  · rfl
  · simp
  · simp
  · intro place entry h hnot
    simp [(hentry h).1] at hnot
  · intro place entry h child hc
    rw [(hentry h).2] at hc
    cases hc
  · intro place entry h
    rw [(hentry h).2]
    exact List.nodup_nil
  · intro i j child x y hx hy hc
    rw [(hentry hx).2] at hc
    cases hc

theorem read_append {slot : Slot} {added : List (List (String × Json))}
    (h : ∀ place ∈ slot.places, place < objects.length) :
    slot.read (objects ++ added) = slot.read objects := by
  have hget : ∀ place ∈ slot.places, (objects ++ added).getD place [] = objects.getD place [] :=
    fun place hp ↦ by simp [List.getElem?_append_left (h place hp)]
  cases slot with
  | ready => rfl
  | node place => rw [Slot.read, Slot.read, hget place List.mem_cons_self]
  | nodes places =>
    rw [Slot.read, Slot.read, List.map_congr_left fun place hp ↦ by rw [hget place hp]]

theorem describes_append {entry : Entry} {added : List (List (String × Json))}
    (h : ∀ place ∈ entry.places, place < objects.length) (hd : entry.Describes objects members) :
    entry.Describes (objects ++ added) members := by
  refine ⟨hd.kind, ?_⟩
  rw [← hd.fields]
  apply List.map_congr_left
  intro field hf
  rw [read_append fun place hp ↦ h place (List.mem_flatMap.mpr ⟨field, hf, hp⟩)]

/-- An entry after a step is the one that was filled, one of before, or a new one. -/
theorem entry_cases {entries : Array Entry} {place j count : Nat} {filled x : Entry}
    (h : ((entries ++ Array.replicate count Entry.blank).setIfInBounds place filled)[j]? = some x) :
    (j = place ∧ x = filled) ∨ (j ≠ place ∧ entries[j]? = some x) ∨
      (j ∈ List.range' entries.size count ∧ x = .blank) := by
  rw [Array.getElem?_setIfInBounds] at h
  split at h
  · split at h
    · cases h
      exact .inl ⟨Eq.symm ‹_›, rfl⟩
    · cases h
  · rw [Array.getElem?_append] at h
    split at h
    · exact .inr (.inl ⟨Ne.symm ‹_›, h⟩)
    · obtain ⟨hlt, rfl⟩ := Array.getElem?_eq_some_iff.mp h
      rw [Array.size_replicate] at hlt
      refine .inr (.inr ⟨?_, by simp⟩)
      rw [List.mem_range'_1]
      omega

namespace Sound

variable {entries : Array Entry} {place : Nat} {rest : List (Nat × List (String × Json))}
  {added : List (List (String × Json))} {new : List (String × Slot)}

theorem lt_size {a : Arena} (h : Sound objects a) :
    ∀ place ∈ a.work.map (·.1), place < a.entries.size := by
  intro place hp
  obtain ⟨item, hi, rfl⟩ := List.mem_map.mp hp
  rw [← h.size]
  exact (List.getElem?_eq_some_iff.mp (h.work item hi)).1

/-- After a step, an entry refers to new places if it is the one that was filled, and else to the
places of before. -/
theorem child_cases (h : Sound objects ⟨entries, (place, members) :: rest⟩)
    (hnew : new.flatMap (fun field ↦ field.2.places) = List.range' entries.size added.length)
    {j child : Nat} {x : Entry}
    (hx : ((entries ++ Array.replicate added.length Entry.blank).setIfInBounds place
      ⟨kindOf members, new⟩)[j]? = some x) (hc : child ∈ x.places) :
    (j = place ∧ entries.size ≤ child ∧ child < entries.size + added.length) ∨
      (entries[j]? = some x ∧ j < child ∧ child < entries.size) := by
  rcases entry_cases hx with ⟨hj, rfl⟩ | ⟨hj, hx⟩ | ⟨-, rfl⟩
  · rw [Entry.places, hnew, List.mem_range'_1] at hc
    exact .inl ⟨hj, hc⟩
  · exact .inr ⟨hx, h.behind j x hx child hc⟩
  · cases hc

/-- Filling one entry keeps the arena sound. -/
theorem step {later : Array Entry} {work : List (Nat × List (String × Json))}
    {found : List (String × Slot)} (h : Sound objects ⟨entries, (place, members) :: rest⟩)
    (hslots : slots members [] ⟨entries, rest⟩ = (found, ⟨later, work⟩)) :
    ∃ added,
      Sound (objects ++ added) ⟨later.setIfInBounds place ⟨kindOf members, found⟩, work⟩ := by
  obtain ⟨added, new, hadded, hfound, hnew, hfields⟩ := slots_reserves members [] ⟨entries, rest⟩
  rw [hslots] at hadded hfound
  dsimp only at hfound hnew hfields
  obtain rfl : later = entries ++ Array.replicate added.length Entry.blank := hadded.entries
  rw [List.reverse_nil, List.nil_append] at hfound
  subst hfound
  have hsize : objects.length = entries.size := h.size
  have hplaced : Placed (objects ++ added) entries.size added :=
    hsize ▸ placed_append_right objects added
  have hget {i : Nat} (hi : i < entries.size) :
      (objects ++ added).getD i [] = objects.getD i [] := by
    simp [List.getElem?_append_left (hsize ▸ hi)]
  have hlt : place < entries.size := h.lt_size place (by simp)
  refine ⟨added, ?_⟩
  constructor
  case size => simp [hsize]
  case work =>
    refine hadded.objects_work hplaced fun item hi ↦ ?_
    rw [List.getElem?_append_left (hsize ▸ h.lt_size item.1 (by simp [List.mem_map_of_mem hi]))]
    exact h.work item (.tail _ hi)
  case nodup =>
    exact hadded.nodup_work (List.nodup_cons.mp h.nodup).2 fun i hi ↦ h.lt_size i (.tail _ hi)
  case filled =>
    intro j x hx hj
    rw [hadded.places_work, List.mem_append, List.mem_reverse, not_or] at hj
    rcases entry_cases hx with ⟨rfl, rfl⟩ | ⟨hne, hx⟩ | ⟨hblank, -⟩
    · have hmembers : objects[j]? = some members := h.work (j, members) List.mem_cons_self
      have hj : objects.getD j [] = members := by simp [hmembers]
      rw [hget hlt, hj]
      exact ⟨rfl, hfields _ hplaced⟩
    · have hold := h.filled j x hx (by simpa [hne] using hj.2)
      rw [hget (Array.getElem?_eq_some_iff.mp hx).1]
      exact describes_append (fun child hc ↦ hsize ▸ (h.behind j x hx child hc).2) hold
    · exact absurd hblank hj.1
  case behind =>
    intro j x hx child hc
    have hcount : ((entries ++ Array.replicate added.length Entry.blank).setIfInBounds place
        ⟨kindOf members, found⟩).size = entries.size + added.length := by simp
    rw [hcount]
    rcases h.child_cases hnew hx hc with ⟨rfl, hge, hle⟩ | ⟨-, hgt, hle⟩ <;> omega
  case distinct =>
    intro j x hx
    rcases entry_cases hx with ⟨-, rfl⟩ | ⟨-, hx⟩ | ⟨-, rfl⟩
    · rw [Entry.places, hnew]
      exact List.nodup_range'
    · exact h.distinct j x hx
    · exact List.nodup_nil
  case once =>
    intro i j child x y hx hy hcx hcy
    rcases h.child_cases hnew hx hcx with ⟨hi, hge, -⟩ | ⟨hx, -, hlt⟩
    · rcases h.child_cases hnew hy hcy with ⟨hj, -⟩ | ⟨-, -, hlt⟩
      · rw [hi, hj]
      · omega
    · rcases h.child_cases hnew hy hcy with ⟨-, hge, -⟩ | ⟨hy, -⟩
      · omega
      · exact h.once i j child x y hx hy hcx hcy

end Sound

/-- Filling all entries keeps the arena sound. -/
theorem Sound.fill {a : Arena} (h : Sound objects a) :
    ∃ more, Sound (objects ++ more) ⟨a.fill, []⟩ := by
  fun_induction Arena.fill a generalizing objects with
  | case1 entries => exact ⟨[], by simpa using h⟩
  | case2 entries place members rest found later work hslots ih =>
    obtain ⟨added, hstep⟩ := h.step hslots
    obtain ⟨more, hmore⟩ := ih hstep
    rw [List.append_assoc] at hmore
    exact ⟨added ++ more, hmore⟩

end Arena

namespace Built

structure Leaves (places : List Nat) (built later : Built) : Prop where
  size : later.size = built.size
  others : ∀ place, place ∉ places → later[place]? = built[place]?

theorem Leaves.refl (built : Built) : Leaves [] built built :=
  ⟨rfl, fun _ _ ↦ rfl⟩

variable {built : Built} {places : List Nat}

theorem Leaves.trans {others : List Nat} {later last : Built} (h : Leaves places built later)
    (h' : Leaves others later last) : Leaves (places ++ others) built last := by
  refine ⟨h'.size.trans h.size, fun place hp ↦ ?_⟩
  rw [List.mem_append, not_or] at hp
  rw [h'.others place hp.2, h.others place hp.1]

theorem take_leaves {place : Nat} {n : Node} (h : built[place]? = some (some n)) :
    ∃ later, built.take place = (some n, later) ∧ Leaves [place] built later := by
  refine ⟨built.setIfInBounds place none, by rw [take, h], Array.size_setIfInBounds, ?_⟩
  intro other ho
  rw [List.mem_singleton] at ho
  exact Array.getElem?_setIfInBounds_ne (Ne.symm ho)

theorem takeAll_leaves {node : Nat → Node} (hn : places.Nodup)
    (hb : ∀ place ∈ places, built[place]? = some (some (node place))) (nodes : List Node) :
    ∃ later, takeAll places nodes built = (nodes.reverse ++ places.map node, later) ∧
      Leaves places built later := by
  induction places generalizing built nodes with
  | nil => exact ⟨built, by simp [takeAll], .refl built⟩
  | cons place rest ih =>
    obtain ⟨hnew, hrest⟩ := List.nodup_cons.mp hn
    obtain ⟨later, htake, hlater⟩ := take_leaves (hb place List.mem_cons_self)
    have hb' : ∀ other ∈ rest, later[other]? = some (some (node other)) := by
      intro other ho
      have hne : other ≠ place := fun heq ↦ hnew (heq ▸ ho)
      rw [hlater.others other (by simpa using hne)]
      exact hb other (.tail _ ho)
    obtain ⟨last, htakeAll, hlast⟩ := ih hrest hb' (node place :: nodes)
    refine ⟨last, ?_, hlater.trans hlast⟩
    rw [takeAll, htake]
    dsimp only
    rw [htakeAll]
    simp

theorem field?_leaves {slot : Slot} (hn : slot.places.Nodup)
    (hb : ∀ place ∈ slot.places, built[place]? = some (some (nodeOf (objects.getD place [])))) :
    ∃ later, field? slot built = (some (slot.read objects), later) ∧
      Leaves slot.places built later := by
  cases slot with
  | ready field => exact ⟨built, rfl, .refl built⟩
  | node place =>
    obtain ⟨later, htake, hlater⟩ := take_leaves (hb place List.mem_cons_self)
    refine ⟨later, ?_, hlater⟩
    rw [field?, htake]
    rfl
  | nodes places =>
    obtain ⟨later, htake, hlater⟩ := takeAll_leaves hn hb []
    rw [Slot.places] at htake
    refine ⟨later, ?_, hlater⟩
    rw [field?, htake]
    rfl

theorem fields_leaves {slots : List (String × Slot)}
    (hn : (slots.flatMap fun field ↦ field.2.places).Nodup)
    (hb : ∀ place ∈ slots.flatMap fun field ↦ field.2.places,
      built[place]? = some (some (nodeOf (objects.getD place []))))
    (found : List (String × Field)) :
    ∃ later, fields slots found built =
        (found.reverse ++ slots.map fun field ↦ (field.1, field.2.read objects), later) ∧
      Leaves (slots.flatMap fun field ↦ field.2.places) built later := by
  induction slots generalizing built found with
  | nil => exact ⟨built, by simp [fields], .refl built⟩
  | cons entry rest ih =>
    obtain ⟨name, slot⟩ := entry
    rw [List.flatMap_cons] at hn hb
    obtain ⟨hslot, hrest, hdisjoint⟩ := List.nodup_append.mp hn
    obtain ⟨later, hfield, hlater⟩ :=
      field?_leaves hslot fun place hp ↦ hb place (List.mem_append_left _ hp)
    have hb' : ∀ place ∈ rest.flatMap fun field ↦ field.2.places,
        later[place]? = some (some (nodeOf (objects.getD place []))) := by
      intro place hp
      rw [hlater.others place fun h ↦ hdisjoint place h place hp rfl]
      exact hb place (List.mem_append_right _ hp)
    obtain ⟨last, hfields, hlast⟩ := ih hrest hb' ((name, slot.read objects) :: found)
    refine ⟨last, ?_, hlater.trans hlast⟩
    rw [fields, hfield]
    dsimp only
    rw [hfields]
    simp

/-- The nodes of all places from `next` on are there, unless one of these places refers to them. -/
def Ready (objects : List (List (String × Json))) (entries : Array Entry) (next : Nat)
    (built : Built) : Prop :=
  ∀ place, next ≤ place → place < entries.size →
    (∀ (i : Nat) (entry : Entry), next ≤ i → entries[i]? = some entry → place ∉ entry.places) →
    built[place]? = some (some (nodeOf (objects.getD place [])))

theorem Ready.assemble {entries : Array Entry} (h : Arena.Sound objects ⟨entries, []⟩) {next : Nat}
    (hle : next ≤ entries.size) (hsize : built.size = entries.size)
    (hb : Ready objects entries next built) :
    Ready objects entries 0 (assemble entries next built) := by
  induction next generalizing built with
  | zero => exact hb
  | succ place ih =>
    have hentry : entries[place]? = some entries[place] := Array.getElem?_eq_getElem hle
    have hbehind := h.behind place _ hentry
    have hplaces : ∀ child ∈ entries[place].places,
        built[child]? = some (some (nodeOf (objects.getD child []))) := by
      intro child hc
      refine hb child (hbehind child hc).1 (hbehind child hc).2 fun i entry hi he hc' ↦ ?_
      have heq := h.once place i child _ _ hentry he hc hc'
      omega
    obtain ⟨later, hfields, hlater⟩ := fields_leaves (h.distinct place _ hentry) hplaces []
    have hdescribes := h.filled place _ hentry (by simp)
    rw [List.reverse_nil, List.nil_append, hdescribes.fields] at hfields
    rw [Built.assemble, hentry, Option.getD_some]
    dsimp only
    rw [hfields, hdescribes.kind]
    apply ih (Nat.le_of_succ_le hle)
    · rw [Array.size_setIfInBounds, hlater.size, hsize]
    · intro other hge hlt hnot
      by_cases heq : other = place
      · subst heq
        rw [Array.getElem?_setIfInBounds_self_of_lt]
        · rw [nodeOf]
        · rw [hlater.size, hsize]
          exact hlt
      · rw [Array.getElem?_setIfInBounds_ne (Ne.symm heq), hlater.others other]
        · exact hb other (by omega) hlt fun i entry hi ↦ hnot i entry (Nat.le_of_succ_le hi)
        · exact hnot place _ (Nat.le_refl _) hentry

end Built

theorem build_eq (members : List (String × Json)) : build members = .ok (nodeOf members) := by
  obtain ⟨more, hsound⟩ := (Arena.Sound.start members).fill
  unfold build
  dsimp only
  generalize Arena.fill ⟨#[.blank], [(0, members)]⟩ = entries at hsound
  have hready : Built.Ready ([members] ++ more) entries entries.size
      (Array.replicate entries.size none) := fun place hge hlt ↦ by omega
  have hall := hready.assemble hsound (Nat.le_refl _) (by simp)
  have hpositive : 0 < entries.size := by
    rw [← hsound.size]
    simp
  have hroot := hall 0 (Nat.le_refl _) hpositive fun i entry _ he hc ↦ by
    have hlt := (hsound.behind i entry he 0 hc).1
    omega
  rw [hroot]
  rfl

theorem ofJson_object {members : List (String × Json)} {kind : String}
    (h : member? members "NodeType" = some (.string kind)) :
    ofJson (.object members) = .ok ((nodeOf members).number 0).1 := by
  rw [ofJson, h]
  dsimp only
  rw [build_eq, ← Node.numbered_eq]
  rfl

theorem exists_of_ofJson {document : Json} {root : Node} (h : ofJson document = .ok root) :
    ∃ members kind, document = .object members ∧ member? members "NodeType" = some (.string kind) ∧
      root = ((nodeOf members).number 0).1 := by
  have hobject : ∃ members kind,
      document = .object members ∧ member? members "NodeType" = some (.string kind) := by
    unfold ofJson at h
    split at h <;> try cases h
    split at h <;> try cases h
    exact ⟨_, _, rfl, ‹_›⟩
  obtain ⟨members, kind, rfl, hkind⟩ := hobject
  rw [ofJson_object hkind] at h
  cases h
  exact ⟨members, kind, rfl, hkind, rfl⟩

/-- The nodes of the tree of a document are those of objects in it, numbered. -/
theorem exists_of_contains_ofJson {document : Json} {root x : Node} (h : ofJson document = .ok root)
    (hx : root.Contains x) : ∃ members place, x = ((nodeOf members).number place).1 := by
  induction hx with
  | refl =>
    obtain ⟨members, -, -, -, hroot⟩ := exists_of_ofJson h
    exact ⟨members, 0, hroot⟩
  | @tail y c _ hc ih =>
    obtain ⟨members, place, rfl⟩ := ih
    rw [Node.children_number] at hc
    obtain ⟨d, hd, place, rfl⟩ := Node.exists_of_mem_numberForest hc
    obtain ⟨others, rfl⟩ := exists_of_mem_children_nodeOf hd
    exact ⟨others, place, rfl⟩

theorem kind_of_contains_ofJson {document : Json} {root x : Node} (h : ofJson document = .ok root)
    (hx : root.Contains x) : ∃ kind, x.kind = .ok kind := by
  obtain ⟨members, place, rfl⟩ := exists_of_contains_ofJson h hx
  rw [number_nodeOf]
  exact ⟨kindOf members, rfl⟩

end TreePattern.Tree
