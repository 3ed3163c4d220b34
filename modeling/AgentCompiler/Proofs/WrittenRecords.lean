import AgentCompiler.Json.Record
import AgentCompiler.Proofs.ReadableJson

/-!
Records, tagged values, lists and maps that are written with all their parts are read back, as long
as they nest no deeper than their reader may go.
-/

namespace AgentCompiler

open List Option

namespace Json

variable {levels : Nat} {names : List String} {values : List Json} {β : Type}

section

variable {members : List (String × Json)} {items : List Json}

mutual

def depth : Json → Nat
  | array items => itemsDepth items + 1
  | object members => membersDepth members + 1
  | _ => 0

def itemsDepth : List Json → Nat
  | [] => 0
  | item :: rest => max (depth item) (itemsDepth rest)

def membersDepth : List (String × Json) → Nat
  | [] => 0
  | (_, value) :: rest => max (depth value) (membersDepth rest)

end

lemma itemsDepth_le {n : Nat} (items : List Json) : itemsDepth items ≤ n ↔ ∀ j ∈ items,
    j.depth ≤ n := by
  induction items with
  | nil => simp [itemsDepth]
  | cons j items ih => simp [itemsDepth, ih]

lemma membersDepth_le {n : Nat} (members : List (String × Json)) :
    membersDepth members ≤ n ↔ ∀ m ∈ members, m.2.depth ≤ n := by
  induction members with
  | nil => simp [membersDepth]
  | cons m members ih =>
    rw [membersDepth, Nat.max_le, ih, forall_mem_cons]

lemma depth_array_le :
    (array items).depth ≤ levels ↔ ∃ n, levels = n + 1 ∧ ∀ j ∈ items, j.depth ≤ n := by
  cases levels with
  | zero => simp [depth]
  | succ n => simp [depth, itemsDepth_le]

lemma depth_object_le : (object members).depth ≤ levels ↔ ∃ n, levels = n + 1 ∧ ∀ m ∈ members,
    m.2.depth ≤ n := by
  cases levels with
  | zero => simp [depth]
  | succ n => simp only [depth, Nat.add_le_add_iff_right, membersDepth_le]; simp

lemma areItemsPlain_iff :
    areItemsPlain levels items = true ↔ ∀ j ∈ items, isPlainWithin levels j = true := by
  induction items with
  | nil => simp [areItemsPlain]
  | cons j items ih => simp [areItemsPlain, ih]

lemma areMembersPlain_iff :
    areMembersPlain levels members = true ↔ ∀ m ∈ members, isPlainWithin levels m.2 = true := by
  induction members with
  | nil => simp [areMembersPlain]
  | cons m members ih => rw [areMembersPlain, Bool.and_eq_true, ih, forall_mem_cons]

lemma isPlainWithin_of_depth_le {j : Json} (isExact : j.IsExact) (nests : j.depth ≤ levels) :
    j.isPlainWithin levels = true := by
  induction isExact generalizing levels with
  | null | bool | int | text => cases levels <;> rfl
  | array all ih =>
    obtain ⟨n, rfl, within⟩ := depth_array_le.1 nests
    exact areItemsPlain_iff.2 fun j mem => ih j mem (within j mem)
  | object all ih =>
    obtain ⟨n, rfl, within⟩ := depth_object_le.1 nests
    exact areMembersPlain_iff.2 fun m mem => ih m mem (within m mem)

end

section

lemma named_append_zip (before : List (String × Json)) (fresh : ∀ m ∈ before, m.1 ∉ names)
    (nodup : names.Nodup) (same : names.length = values.length) :
    named names (before ++ names.zip values) = some (values.map some) := by
  -- On the names: what has been passed joins the members that stand before.
  induction names generalizing values before with
  | nil =>
    obtain rfl := length_eq_zero_iff.1 same.symm
    rfl
  | cons name names ih =>
    obtain ⟨value, values, rfl⟩ := exists_cons_of_length_eq_add_one same.symm
    obtain ⟨alone, nodup⟩ := nodup_cons.1 nodup
    have passed : before.filter (·.1 == name) = [] := by
      refine filter_eq_nil_iff.2 fun m mem equal => fresh m mem ?_
      exact mem_cons.2 (.inl (beq_iff_eq.1 equal))
    have ahead : (names.zip values).filter (·.1 == name) = [] := by
      refine filter_eq_nil_iff.2 fun m mem equal => alone ?_
      exact beq_iff_eq.1 equal ▸ (of_mem_zip mem).1
    have later : named names ((before ++ [(name, value)]) ++ names.zip values) = some
        (values.map some) := by
      refine ih _ ?_ nodup (Nat.succ.inj same)
      intro m mem
      rcases mem_append.1 mem with mem | mem
      · exact fun known => fresh m mem (mem_cons_of_mem _ known)
      · exact mem_singleton.1 mem ▸ alone
    rw [append_assoc, singleton_append] at later
    rw [named] at later ⊢
    rw [mapM_cons, zip_cons_cons, later, filter_append, passed, filter_cons_of_pos (by simp), ahead]
    rfl

lemma named_zip (nodup : names.Nodup) (same : names.length = values.length) :
    named names (names.zip values) = some (values.map some) :=
  named_append_zip [] (by simp) nodup same

lemma tagged_zip {kinds : Kinds} (isNested : Bool) {kind : String}
    (known : kinds.find? (·.1 == kind) = some (kind, names)) (nodup : (tagName :: names).Nodup)
    (same : names.length = values.length) :
    tagged kinds isNested (.object ((tagName, .text kind) :: names.zip values)) = some
        (kind, values.map some) := by
  obtain ⟨alone, nodup⟩ := nodup_cons.1 nodup
  have others : ∀ m ∈ names.zip values, m.1 ≠ tagName := by
    intro m mem equal
    exact alone (equal ▸ (of_mem_zip mem).1)
  have tags : (names.zip values).filter (·.1 == tagName) = [] := by
    simpa using others
  have rest : (names.zip values).filter (·.1 != tagName) = names.zip values := by
    simpa using others
  simp [tagged, tags, rest, kindOf, known, named_zip nodup same]

end

/-- The value is read from the document, and text carries the document without loss. -/
structure Carries {α : Type} (read : Nat → Json → Option α) (j : Json) (a : α) : Prop where
  isExact : j.IsExact
  reads : ∀ {levels}, j.depth ≤ levels → read levels j = some a

section

variable {α : Type} {read : Nat → Json → Option α} {a : α}

@[simp] lemma text?_text (value : String) : text? (.text value) = some value := rfl

@[simp] lemma bool?_bool (value : Bool) : bool? (.bool value) = some value := rfl

@[simp] lemma orDefault_some (fallback : β) (read : Json → Option β) (j : Json) :
    orDefault fallback read (some j) = read j := rfl

lemma carries_text (value : String) : Carries (fun _ j => j.text?) (.text value) value :=
  ⟨.text value, fun _ => rfl⟩

@[simp] lemma int64?_toInt (value : Int64) : int64? (.int value.toInt) = some value := by
  have low := value.minValue_le_toInt
  have high := value.toInt_le
  rw [int64?, if_pos (by simp only [low, high, decide_true, Bool.and_true]), Int64.ofInt_toInt]

lemma carries_choice {all : List α} {name : α → String} {isNested : Bool}
    (found : all.find? (name · == name a) = some a) : Carries (readChoice all name isNested)
    (.text (name a)) a := by
  refine ⟨.text _, fun {levels} _ => ?_⟩
  cases levels <;> exact found

lemma carries_nullable {document : α → Json} {value : Option α}
    (present : ∀ a ∈ value, document a ≠ .null) (all : ∀ a ∈ value, Carries read (document a) a) :
    Carries (fun levels j => nullable (read levels) (some j))
        ((value.map document).getD .null) value := by
  cases value with
  | none => exact ⟨.null, fun _ => rfl⟩
  | some a =>
    have written := all a rfl
    refine ⟨written.isExact, fun nests => ?_⟩
    change nullable (read _) (some (document a)) = some (some a)
    rw [nullable, written.reads nests]
    · rfl
    · exact present a rfl

lemma carries_list {document : α → Json} {items : List α}
    (all : ∀ a ∈ items, Carries read (document a) a) :
    Carries (readList read) (.array (items.map document)) items := by
  refine ⟨.array (List.forall_mem_map.2 fun a mem => (all a mem).isExact), fun nests => ?_⟩
  obtain ⟨n, rfl, within⟩ := depth_array_le.1 nests
  exact mapM_map_eq_some fun a mem => (all a mem).reads (within _ (List.mem_map_of_mem mem))

lemma forall_mem_of_zip {P : Json → Prop} (same : names.length = values.length)
    (all : ∀ m ∈ names.zip values, P m.2) : ∀ j ∈ values, P j := by
  have seconds := map_snd_zip same.ge
  intro j mem
  rw [← seconds] at mem
  obtain ⟨m, among, rfl⟩ := List.mem_map.1 mem
  exact all m among

lemma carries_record {build : Nat → List (Option Json) → Option α} (names : List String)
    (values : List Json) (nodup : names.Nodup) (same : names.length = values.length)
    (exacts : values.Forall IsExact) (built : ∀ levels, values.Forall (·.depth ≤ levels) →
    build levels (values.map some) = some a) :
    Carries (readRecord names build) (.object (names.zip values)) a := by
  rw [forall_iff_forall_mem] at exacts
  refine ⟨.object fun m mem => exacts m.2 (of_mem_zip mem).2, fun nests => ?_⟩
  obtain ⟨n, rfl, within⟩ := depth_object_le.1 nests
  rw [readRecord, fields, named_zip nodup same]
  exact built n (forall_iff_forall_mem.2 (forall_mem_of_zip same within))

lemma carries_tagged (kinds : Kinds) (isNested : Bool) (kind : String)
    (names : List String) (values : List Json)
    (known : kinds.find? (·.1 == kind) = some (kind, names)) (nodup : (tagName :: names).Nodup)
    (same : names.length = values.length) (exacts : values.Forall IsExact)
    (built : ∀ levels j, values.Forall (·.depth ≤ levels) →
      tagged kinds isNested j = some (kind, values.map some) → read (levels + 1) j = some a) :
    Carries read (.object ((tagName, .text kind) :: names.zip values)) a := by
  rw [forall_iff_forall_mem] at exacts
  refine ⟨.object ?_, fun nests => ?_⟩
  · exact forall_mem_cons.2 ⟨.text kind, fun m mem => exacts m.2 (of_mem_zip mem).2⟩
  · obtain ⟨n, rfl, within⟩ := depth_object_le.1 nests
    have fits : ∀ j ∈ values, j.depth ≤ n := forall_mem_of_zip same (forall_mem_cons.1 within).2
    exact built n _ (forall_iff_forall_mem.2 fits) (tagged_zip isNested known nodup same)

lemma carries_tagged_single (kinds : Kinds) (isNested : Bool) (kind name : String)
    {value : Json} (isExact : value.IsExact)
    (known : kinds.find? (·.1 == kind) = some (kind, [name])) (other : tagName ≠ name)
    (built : ∀ levels j, tagged kinds isNested j = some (kind, [some value]) →
      read (levels + 1) j = some a) : Carries read (.object [(tagName, .text kind), (name, value)])
      a :=
  carries_tagged kinds isNested kind [name] [value] known (by simpa using other) rfl
    isExact fun levels j _ shape => built levels j shape

end

section

variable {α : Type} {pairs : List (String × α)} {name : String}

def IsByName (pairs : List (String × α)) : Prop := pairs.Pairwise fun a b => a.1 < b.1

instance (pairs : List (String × α)) : Decidable (IsByName pairs) := inferInstanceAs
    (Decidable (pairs.Pairwise _))

lemma insertByName_last (value : α) (last : ∀ m ∈ pairs, m.1 < name) :
    insertByName name value pairs = pairs ++ [(name, value)] := by
  induction pairs with
  | nil => rfl
  | cons m pairs ih =>
    obtain ⟨before, others⟩ := forall_mem_cons.1 last
    rw [insertByName, if_neg (String.lt_asymm before), if_neg, ih others]
    · rfl
    · rintro rfl
      exact String.lt_irrefl _ before

lemma foldl_insertByName (before pairs : List (String × α)) (ordered : IsByName (before ++ pairs)) :
    pairs.foldl (fun sorted m => insertByName m.1 m.2 sorted) before = before ++ pairs := by
  induction pairs generalizing before with
  | nil => simp
  | cons m pairs ih =>
    have last := fun n mem =>
      (pairwise_append.1 ordered).2.2 n mem m mem_cons_self
    rw [foldl_cons, insertByName_last m.2 last, ih _ (by simpa using ordered),
      append_assoc, singleton_append]

lemma sortByName_of_isByName (ordered : IsByName pairs) : sortByName pairs = pairs :=
  foldl_insertByName [] pairs ordered

lemma mem_insertByName {value : α} {m : String × α}
    (mem : m ∈ insertByName name value pairs) : m = (name, value) ∨ m ∈ pairs := by
  induction pairs with
  | nil => exact .inl (mem_singleton.1 mem)
  | cons n pairs ih =>
    rw [insertByName] at mem
    split at mem
    · exact mem_cons.1 mem
    · split at mem
      · exact (mem_cons.1 mem).imp_right (mem_cons_of_mem _)
      · rcases mem_cons.1 mem with rfl | mem
        · exact .inr mem_cons_self
        · exact (ih mem).imp_right (mem_cons_of_mem _)

lemma insertByName_isByName (name : String) (value : α)
    (ordered : IsByName pairs) : IsByName (insertByName name value pairs) := by
  induction pairs with
  | nil => exact pairwise_singleton _ _
  | cons m pairs ih =>
    obtain ⟨first, rest⟩ := pairwise_cons.1 ordered
    rw [insertByName]
    split
    next before =>
      refine pairwise_cons.2 ⟨?_, ordered⟩
      exact forall_mem_cons.2 ⟨before, fun n mem => String.lt_trans before (first n mem)⟩
    next notBefore =>
      split
      next equal => exact pairwise_cons.2 ⟨fun n mem => equal ▸ first n mem, rest⟩
      next other =>
        have after := String.not_le.1 fun le =>
          other (String.le_antisymm le (String.not_lt.1 notBefore))
        refine pairwise_cons.2 ⟨fun n mem => ?_, ih rest⟩
        rcases mem_insertByName mem with rfl | mem
        · exact after
        · exact first n mem

lemma sortByName_isByName (pairs : List (String × α)) : IsByName (sortByName pairs) := by
  have all (sorted : List (String × α)) (ordered : IsByName sorted) :
      IsByName (pairs.foldl (fun sorted m => insertByName m.1 m.2 sorted) sorted) := by
    induction pairs generalizing sorted with
    | nil => exact ordered
    | cons m pairs ih => exact ih _ (insertByName_isByName m.1 m.2 ordered)
  exact all [] .nil

lemma carries_map {read : Nat → Json → Option α} {document : α → Json} (ordered : IsByName pairs)
    (all : ∀ m ∈ pairs, Carries read (document m.2) m.2) :
    Carries (readMap read) (.object (pairs.map fun m => (m.1, document m.2))) pairs := by
  refine ⟨.object (List.forall_mem_map.2 fun m mem => (all m mem).isExact), fun nests => ?_⟩
  · obtain ⟨n, rfl, within⟩ := depth_object_le.1 nests
    have values : (pairs.map fun m => (m.1, document m.2)).mapM (fun m => (m.1, ·) <$> read n m.2) =
        some pairs := by
      refine mapM_map_eq_some fun m mem => ?_
      rw [(all m mem).reads (within _ (List.mem_map_of_mem mem))]
      rfl
    rw [readMap, values]
    exact congrArg some (sortByName_of_isByName ordered)

end

section

variable {α : Type} {read : Nat → Json → Option α} {P : α → Prop}

def Ensures (read : Nat → Json → Option α) (P : α → Prop) : Prop := ∀ levels j a, read levels j =
    some a → P a

lemma exists_of_mapM_eq_some {f : β → Option α} {items : List β} {results : List α}
    (mapped : items.mapM f = some results) : ∀ a ∈ results, ∃ item, f item = some a := by
  induction items generalizing results with
  | nil =>
    cases mapped
    simp
  | cons item items ih =>
    rw [mapM_cons] at mapped
    obtain ⟨a, first, mapped⟩ := bind_eq_some_iff.1 mapped
    obtain ⟨rest, others, mapped⟩ := bind_eq_some_iff.1 mapped
    cases mapped
    exact forall_mem_cons.2 ⟨⟨item, first⟩, ih others⟩

lemma readList_eq_some {j : Json} {items : List α} (result : readList read levels j = some items) :
    ∃ n, levels = n + 1 ∧ ∀ a ∈ items, ∃ j, read n j = some a := by
  cases levels with
  | zero => cases result
  | succ n =>
    cases j with
    | array written => exact ⟨n, rfl, exists_of_mapM_eq_some result⟩
    | _ => cases result

lemma Ensures.list (ensured : Ensures read P) : Ensures (readList read) fun items => ∀ a ∈ items,
    P a := by
  intro levels j items result a mem
  obtain ⟨n, rfl, found⟩ := readList_eq_some result
  obtain ⟨j, result⟩ := found a mem
  exact ensured n j a result

lemma readMap_isByName : Ensures (readMap read) IsByName := by
  intro levels j pairs result
  cases levels with
  | zero => cases result
  | succ n =>
    cases j with
    | object members =>
      obtain ⟨given, -, sorted⟩ := bind_eq_some_iff.1 result
      exact some.inj sorted ▸ sortByName_isByName given
    | _ => cases result

lemma Ensures.orEmpty {P : List α → Prop} {read : Nat → Json → Option (List α)}
    (ensured : Ensures read P) (empty : P []) {field : Option Json} {items : List α}
    (result : orDefault [] (read levels) field = some items) : P items := by
  cases field with
  | none => exact some.inj result ▸ empty
  | some j => exact ensured levels j items result

lemma Ensures.record {build : Nat → List (Option Json) → Option α}
    (built : ∀ levels values a, build levels values = some a → P a) :
    Ensures (readRecord names build) P := by
  intro levels j a result
  cases levels with
  | zero => cases result
  | succ n =>
    obtain ⟨values, -, result⟩ := bind_eq_some_iff.1 result
    exact built n values a result

end

end Json

end AgentCompiler
