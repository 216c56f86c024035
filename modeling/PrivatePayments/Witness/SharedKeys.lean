import PrivatePayments.Witness.Agreement

/-!
When the flattening agrees with the plain recursion: for one input, by the lists its nested
objects write, and for all inputs of a shape, by the keys that the fields of an object share.
-/

namespace PrivatePayments.Witness
open Bn254

variable (parseBytes : String → Nat → Option Int)

/-- The map for the input is the one of the plain recursion, and building it fails exactly when some scalar
is no integer of absolute value below the modulus. -/
def Matches (fields : List (String × Value)) : Prop :=
  ((∀ w ∈ inputWrites id fields, (w.2.element parseBytes).isSome) →
    ∃ m, inputsHashmap parseBytes (.object fields) = .ok m ∧
      ∀ key, m key = extended none (written parseBytes (inputWrites id fields) key)) ∧
  ((∃ w ∈ inputWrites id fields, w.2.element parseBytes = none) →
    ∃ e, inputsHashmap parseBytes (.object fields) = .error e)

theorem extended_none_inj {xs ys : List Int} : extended none xs = extended none ys ↔ xs = ys := by
  unfold extended
  split <;> split <;> simp_all [eq_comm]

theorem matches_iff (fields : List (String × Value)) : Matches parseBytes fields ↔
    ((∀ w ∈ inputWrites id fields, (w.2.element parseBytes).isSome) →
      ∀ o ∈ nestedObjects fields, ObjectAgrees parseBytes o) := by
  rw [← inputWrites_agree_iff]
  have perm := inputWrites_perm fields
  unfold Matches
  rw [inputsHashmap_eq]
  rcases foldlM_write parseBytes (inputWrites List.reverse fields) fun _ => none with
    ⟨valid, m, run, lists⟩ | ⟨⟨w, member, invalid⟩, e, run⟩
  · have valid' : ∀ w ∈ inputWrites id fields, (w.2.element parseBytes).isSome :=
      fun w member => valid w (perm.mem_iff.mpr member)
    rw [run]
    constructor
    · rintro ⟨right, -⟩ - key
      obtain ⟨m', same, lists'⟩ := right valid'
      cases same
      exact extended_none_inj.mp ((lists key).symm.trans (lists' key))
    · intro agree
      refine ⟨fun _ => ⟨m, rfl, fun key => ?_⟩, ?_⟩
      · rw [lists key, agree valid' key]
      · rintro ⟨w, member, invalid⟩
        have some := valid' w member
        rw [invalid] at some
        cases some
  · have absurd_valid : ¬ ∀ w ∈ inputWrites id fields, (w.2.element parseBytes).isSome := by
      intro valid
      have some := valid w (perm.mem_iff.mp member)
      rw [invalid] at some
      cases some
    rw [run]
    exact iff_of_true ⟨fun valid => (absurd_valid valid).elim, fun _ => ⟨e, rfl⟩⟩
      fun valid => (absurd_valid valid).elim

section Shape

mutual

/-- The value with its scalars forgotten. -/
def Value.shape : Value → Value
  | .array items => .array (shapeAll items)
  | .object fields => .object (shapeFields fields)
  | .null => .null
  | .bool _ => .null
  | .number _ => .null
  | .string _ => .null

def shapeAll : List Value → List Value
  | [] => []
  | v :: vs => v.shape :: shapeAll vs

def shapeFields : List (String × Value) → List (String × Value)
  | [] => []
  | (field, v) :: fields => (field, v.shape) :: shapeFields fields

end

mutual

/-- In every object of the value, no two fields write under one key. -/
def Value.separate (key : String) : Value → Prop
  | .array items => isPureAll items = true ∨ separateAll key 0 items
  | .object fields =>
    ((expandFields id key fields).map fun ws => ws.map Prod.fst).Pairwise List.Disjoint ∧ separateFields key fields
  | .null => True
  | .bool _ => True
  | .number _ => True
  | .string _ => True

def separateAll (key : String) : Nat → List Value → Prop
  | _, [] => True
  | idx, v :: vs => v.separate (indexedKey key idx) ∧ separateAll key (idx + 1) vs

def separateFields (key : String) : List (String × Value) → Prop
  | [] => True
  | (field, v) :: fields => v.separate (nestedKey key field) ∧ separateFields key fields

end

/-- No two fields of an object below the top level write under one key. -/
def KeysSeparate (fields : List (String × Value)) : Prop := ∀ field ∈ fields, field.2.separate field.1

/-- Lists of which at most one has elements are joined in any direction to the same list. -/
theorem flatten_reverse_of_single {α : Type} {parts : List (List α)}
    (single : parts.Pairwise fun xs ys => xs = [] ∨ ys = []) : parts.reverse.flatten = parts.flatten := by
  induction single with
  | nil => rfl
  | cons first _ ih =>
    rename_i xs parts _
    rw [List.reverse_cons, List.flatten_append, ih, List.flatten_cons, List.flatten_nil, List.append_nil,
      List.flatten_cons]
    rcases List.eq_nil_or_concat xs with rfl | ⟨ys, y, rfl⟩
    · simp
    · have empty : parts.flatten = [] := by
        rw [List.flatten_eq_nil_iff]
        intro zs member
        rcases first zs member with none | none
        · simp at none
        · exact none
      rw [empty, List.append_nil, List.nil_append]

theorem written_eq_nil {ws : List Write} {key : String} (absent : key ∉ ws.map Prod.fst) :
    written parseBytes ws key = [] := by
  have none : ws.filter (fun w => w.1 = key) = [] := by
    rw [List.filter_eq_nil_iff]
    intro w member
    have other : w.1 ≠ key := fun same => absent (same ▸ List.mem_map_of_mem member)
    simpa using other
  rw [written, none]
  rfl

theorem written_object (turn : List (List Write) → List (List Write)) (key : String) (fields : List (String × Value))
    (k : String) : written parseBytes (expand turn key (.object fields)) k =
      ((turn (expandFields turn key fields)).map fun ws => written parseBytes ws k).flatten := by
  rw [expand, written_flatten]

theorem single_of_disjoint {parts : List (List Write)}
    (disjoint : (parts.map fun ws => ws.map Prod.fst).Pairwise List.Disjoint) (k : String) :
    (parts.map fun ws => written parseBytes ws k).Pairwise fun xs ys => xs = [] ∨ ys = [] := by
  rw [List.pairwise_map] at disjoint ⊢
  refine disjoint.imp fun {ws ws'} apart => ?_
  by_cases inFirst : k ∈ ws.map Prod.fst
  · exact .inr (written_eq_nil parseBytes fun inSecond => apart inFirst inSecond)
  · exact .inl (written_eq_nil parseBytes inFirst)

mutual

theorem agree_of_separate (key : String) : (v : Value) → v.separate key →
    Agree parseBytes (expand List.reverse key v) (expand id key v)
  | .array items, separate => by
    rw [expand, expand]
    split
    · exact fun _ => rfl
    · rename_i mixed
      exact agreeItems_of_separate key 0 items (separate.resolve_left mixed)
  | .object fields, separate => fun k => by
    have parts := agreeFields_of_separate key fields separate.2 k
    rw [written_object, written_object, List.map_reverse, parts]
    exact flatten_reverse_of_single (single_of_disjoint parseBytes separate.1 k)
  | .null, _ => fun _ => rfl
  | .bool _, _ => fun _ => rfl
  | .number _, _ => fun _ => rfl
  | .string _, _ => fun _ => rfl

theorem agreeItems_of_separate (key : String) : (idx : Nat) → (items : List Value) → separateAll key idx items →
    Agree parseBytes (expandItems List.reverse key idx items) (expandItems id key idx items)
  | _, [], _ => fun _ => rfl
  | idx, v :: vs, separate => (agree_append parseBytes (expand_perm _ v)).mpr
      ⟨agree_of_separate _ v separate.1, agreeItems_of_separate key (idx + 1) vs separate.2⟩

theorem agreeFields_of_separate (key : String) : (fields : List (String × Value)) → separateFields key fields →
    ∀ k, (expandFields List.reverse key fields).map (fun ws => written parseBytes ws k) =
      (expandFields id key fields).map fun ws => written parseBytes ws k
  | [], _, _ => rfl
  | (_, v) :: fields, separate, k => congrArg₂ List.cons (agree_of_separate _ v separate.1 k)
      (agreeFields_of_separate key fields separate.2 k)

end

mutual

def Value.paint (b : Bool) : Value → Value
  | .array items => .array (paintAll b items)
  | .object fields => .object (paintFields b fields)
  | .null => .bool b
  | .bool _ => .bool b
  | .number _ => .bool b
  | .string _ => .bool b

def paintAll (b : Bool) : List Value → List Value
  | [] => []
  | v :: vs => v.paint b :: paintAll b vs

def paintFields (b : Bool) : List (String × Value) → List (String × Value)
  | [] => []
  | (field, v) :: fields => (field, v.paint b) :: paintFields b fields

end

mutual

theorem shape_paint (b : Bool) : (v : Value) → (v.paint b).shape = v.shape
  | .array items => congrArg Value.array (shapeAll_paintAll b items)
  | .object fields => congrArg Value.object (shapeFields_paintFields b fields)
  | .null => rfl
  | .bool _ => rfl
  | .number _ => rfl
  | .string _ => rfl

theorem shapeAll_paintAll (b : Bool) : (items : List Value) → shapeAll (paintAll b items) = shapeAll items
  | [] => rfl
  | v :: vs => congrArg₂ List.cons (shape_paint b v) (shapeAll_paintAll b vs)

theorem shapeFields_paintFields (b : Bool) : (fields : List (String × Value)) →
    shapeFields (paintFields b fields) = shapeFields fields
  | [] => rfl
  | (field, v) :: fields =>
    congrArg₂ List.cons (congrArg (Prod.mk field) (shape_paint b v)) (shapeFields_paintFields b fields)

end

mutual

theorem paint_shape (b : Bool) : (v : Value) → v.shape.paint b = v.paint b
  | .array items => congrArg Value.array (paintAll_shapeAll b items)
  | .object fields => congrArg Value.object (paintFields_shapeFields b fields)
  | .null => rfl
  | .bool _ => rfl
  | .number _ => rfl
  | .string _ => rfl

theorem paintAll_shapeAll (b : Bool) : (items : List Value) → paintAll b (shapeAll items) = paintAll b items
  | [] => rfl
  | v :: vs => congrArg₂ List.cons (paint_shape b v) (paintAll_shapeAll b vs)

theorem paintFields_shapeFields (b : Bool) : (fields : List (String × Value)) →
    paintFields b (shapeFields fields) = paintFields b fields
  | [] => rfl
  | (field, v) :: fields =>
    congrArg₂ List.cons (congrArg (Prod.mk field) (paint_shape b v)) (paintFields_shapeFields b fields)

end

mutual

theorem isPure_paint (b : Bool) : (v : Value) → (v.paint b).isPure = v.isPure
  | .array items => isPureAll_paintAll b items
  | .object _ => rfl
  | .null => rfl
  | .bool _ => rfl
  | .number _ => rfl
  | .string _ => rfl

theorem isPureAll_paintAll (b : Bool) : (items : List Value) → isPureAll (paintAll b items) = isPureAll items
  | [] => rfl
  | v :: vs => congrArg₂ Bool.and (isPure_paint b v) (isPureAll_paintAll b vs)

end

mutual

theorem scalars_paint (b : Bool) : (v : Value) → v.isPure = true →
    (v.paint b).scalars = v.scalars.map fun _ => .bool b
  | .array items, pure => scalarsAll_paintAll b items pure
  | .null, _ => rfl
  | .bool _, _ => rfl
  | .number _, _ => rfl
  | .string _, _ => rfl

theorem scalarsAll_paintAll (b : Bool) : (items : List Value) → isPureAll items = true →
    scalarsAll (paintAll b items) = (scalarsAll items).map fun _ => .bool b
  | [], _ => rfl
  | v :: vs, pure => by
    obtain ⟨first, rest⟩ := Bool.and_eq_true_iff.mp pure
    rw [paintAll, scalarsAll, scalarsAll, List.map_append, scalars_paint b v first, scalarsAll_paintAll b vs rest]

end

def painted (b : Bool) (w : Write) : Write := (w.1, .bool b)

def Natural (turn : List (List Write) → List (List Write)) : Prop :=
  ∀ (f : Write → Write) parts, turn (parts.map (List.map f)) = (turn parts).map (List.map f)

theorem natural_id : Natural id := fun _ _ => rfl

theorem natural_reverse : Natural List.reverse := fun _ _ => List.map_reverse.symm

section Painting

variable {turn : List (List Write) → List (List Write)}

mutual

theorem expand_paint (natural : Natural turn) (b : Bool) (key : String) : (v : Value) →
    expand turn key (v.paint b) = (expand turn key v).map (painted b)
  | .array items => by
    rw [Value.paint, expand, expand, isPureAll_paintAll]
    split
    · rename_i pure
      rw [scalarsAll_paintAll b items pure, List.map_map, List.map_map]
      rfl
    · exact expandItems_paint natural b key 0 items
  | .object fields => by
    rw [Value.paint, expand, expand, expandFields_paint natural b key fields, natural, List.map_flatten]
  | .null => rfl
  | .bool _ => rfl
  | .number _ => rfl
  | .string _ => rfl

theorem expandItems_paint (natural : Natural turn) (b : Bool) (key : String) : (idx : Nat) → (items : List Value) →
    expandItems turn key idx (paintAll b items) = (expandItems turn key idx items).map (painted b)
  | _, [] => rfl
  | idx, v :: vs => by
    rw [paintAll, expandItems, expandItems, List.map_append, expand_paint natural b _ v,
      expandItems_paint natural b key (idx + 1) vs]

theorem expandFields_paint (natural : Natural turn) (b : Bool) (key : String) : (fields : List (String × Value)) →
    expandFields turn key (paintFields b fields) = (expandFields turn key fields).map (List.map (painted b))
  | [] => rfl
  | (field, v) :: fields => by
    rw [paintFields, expandFields, expandFields, List.map_cons, expand_paint natural b _ v,
      expandFields_paint natural b key fields]

end

/-- A painted value is written with one element under each of its keys, as often as it writes there. -/
theorem written_painted (b : Bool) (ws : List Write) (k : String) :
    written parseBytes (ws.map (painted b)) k = List.replicate ((ws.map Prod.fst).count k) (if b then 1 else 0) := by
  induction ws with
  | nil => rfl
  | cons w ws ih =>
    rw [List.map_cons, written_cons, ih, List.map_cons, List.count_cons]
    by_cases same : w.1 = k
    · rw [if_pos (show (painted b w).1 = k from same), if_pos (beq_iff_eq.mpr same), List.replicate_succ]
      rfl
    · have other : (w.1 == k) = false := beq_eq_false_iff_ne.mpr same
      rw [if_neg (show ¬ (painted b w).1 = k from same), other]
      rfl

theorem keys_of_shape (natural : Natural turn) (key : String) {v v' : Value} (same : v'.shape = v.shape) :
    (expand turn key v').map Prod.fst = (expand turn key v).map Prod.fst := by
  have keys (v : Value) : (expand turn key v).map Prod.fst = (expand turn key (v.shape.paint false)).map Prod.fst := by
    rw [paint_shape, expand_paint natural, List.map_map]
    rfl
  rw [keys v', keys v, same]

theorem isPureAll_of_shape {items items' : List Value} (same : shapeAll items' = shapeAll items) :
    isPureAll items' = isPureAll items := by
  rw [← isPureAll_paintAll false items', ← isPureAll_paintAll false items, ← paintAll_shapeAll false items', same,
    paintAll_shapeAll]

end Painting

structure Disagrees (key : String) (v v' : Value) : Prop where
  shape : v'.shape = v.shape
  valid : ∀ w ∈ expand id key v', (w.2.element parseBytes).isSome
  differ : ¬ Agree parseBytes (expand List.reverse key v') (expand id key v')

theorem valid_painted (b : Bool) (ws : List Write) : ∀ w ∈ ws.map (painted b), (w.2.element parseBytes).isSome := by
  intro w member
  obtain ⟨w', -, rfl⟩ := List.mem_map.mp member
  rfl

/-- Lists that are not disjoint in pairs: the first of them with some element that a later one has too. -/
theorem exists_shared {α : Type} {parts : List (List α)} (shared : ¬ parts.Pairwise List.Disjoint) :
    ∃ before xs after k, parts = before ++ xs :: after ∧ (∀ ys ∈ before, k ∉ ys) ∧ k ∈ xs ∧ ∃ ys ∈ after, k ∈ ys := by
  induction parts with
  | nil => exact absurd .nil shared
  | cons xs parts ih =>
    by_cases apart : parts.Pairwise List.Disjoint
    · have meets : ¬ ∀ ys ∈ parts, List.Disjoint xs ys := fun all => shared (.cons all apart)
      push Not at meets
      obtain ⟨ys, member, meets⟩ := meets
      obtain ⟨k, inXs, inYs⟩ : ∃ k, k ∈ xs ∧ k ∈ ys := by
        by_contra none
        exact meets fun k inXs inYs => none ⟨k, inXs, inYs⟩
      exact ⟨[], xs, parts, k, rfl, by simp, inXs, ys, member, inYs⟩
    · obtain ⟨before, zs, after, k, rfl, outside, inZs, later⟩ := ih apart
      by_cases inXs : k ∈ xs
      · exact ⟨[], xs, before ++ zs :: after, k, rfl, by simp, inXs, zs, by simp, inZs⟩
      · exact ⟨xs :: before, zs, after, k, rfl, List.forall_mem_cons.mpr ⟨inXs, outside⟩, inZs, later⟩

theorem shapeFields_append (fields rest : List (String × Value)) :
    shapeFields (fields ++ rest) = shapeFields fields ++ shapeFields rest := by
  induction fields with
  | nil => rfl
  | cons field fields ih =>
    obtain ⟨name, v⟩ := field
    exact congrArg ((name, v.shape) :: ·) ih

def marks (key k : String) (b : Bool) (field : String × Value) : List Int :=
  List.replicate (((expand id (nestedKey key field.1) field.2).map Prod.fst).count k) (if b then 1 else 0)

/-- A painted field writes the same in any order. -/
theorem written_paint {turn : List (List Write) → List (List Write)} (natural : Natural turn)
    (perm : ∀ key v, (expand turn key v).Perm (expand id key v)) (key k : String) (b : Bool) (field : String × Value) :
    written parseBytes (expand turn (nestedKey key field.1) (field.2.paint b)) k = marks key k b field := by
  rw [expand_paint natural, written_painted, ((perm _ _).map Prod.fst).count_eq, marks]

theorem written_paintFields {turn : List (List Write) → List (List Write)} (natural : Natural turn)
    (perm : ∀ key v, (expand turn key v).Perm (expand id key v)) (key k : String) (b : Bool)
    (fields : List (String × Value)) :
    (expandFields turn key (paintFields b fields)).map (fun ws => written parseBytes ws k) =
      fields.map (marks key k b) := by
  induction fields with
  | nil => rfl
  | cons field fields ih =>
    obtain ⟨name, v⟩ := field
    rw [paintFields, expandFields, List.map_cons, ih, List.map_cons]
    exact congrArg (· :: _) (written_paint parseBytes natural perm key k b (name, v))

def withField (before : List (String × Value)) (name : String) (v : Value) (after : List (String × Value)) : Value :=
  .object (paintFields false before ++ (name, v) :: paintFields false after)

section WithField

variable (key k name : String) (before after : List (String × Value)) (v : Value)

theorem expandFields_withField (turn : List (List Write) → List (List Write)) :
    expandFields turn key (paintFields false before ++ (name, v) :: paintFields false after) =
      expandFields turn key (paintFields false before) ++ expand turn (nestedKey key name) v ::
        expandFields turn key (paintFields false after) := by
  simp only [expandFields_eq, List.map_append, List.map_cons]

theorem written_withField : written parseBytes (expand id key (withField before name v after)) k =
    (before.map (marks key k false)).flatten ++ (written parseBytes (expand id (nestedKey key name) v) k ++
      (after.map (marks key k false)).flatten) := by
  have perm (key : String) (v : Value) : (expand id key v).Perm (expand id key v) := .refl _
  rw [withField, written_object, expandFields_withField, id, List.map_append, List.map_cons,
    written_paintFields parseBytes natural_id perm, written_paintFields parseBytes natural_id perm, List.flatten_append,
    List.flatten_cons]

theorem written_withField_reverse : written parseBytes (expand List.reverse key (withField before name v after)) k =
    (after.map (marks key k false)).reverse.flatten ++
      (written parseBytes (expand List.reverse (nestedKey key name) v) k ++
        (before.map (marks key k false)).reverse.flatten) := by
  rw [withField, written_object, expandFields_withField, List.map_reverse, List.map_append, List.map_cons,
    written_paintFields parseBytes natural_reverse expand_perm,
    written_paintFields parseBytes natural_reverse expand_perm, List.reverse_append, List.reverse_cons,
    List.append_assoc, List.flatten_append, List.singleton_append, List.flatten_cons]

theorem valid_withField (valid : ∀ w ∈ expand id (nestedKey key name) v, (w.2.element parseBytes).isSome) :
    ∀ w ∈ expand id key (withField before name v after), (w.2.element parseBytes).isSome := by
  rw [withField, expand, expandFields_withField, id, List.flatten_append, List.flatten_cons, List.forall_mem_append,
    List.forall_mem_append, expandFields_paint natural_id, expandFields_paint natural_id, ← List.map_flatten,
    ← List.map_flatten]
  exact ⟨valid_painted parseBytes false _, valid, valid_painted parseBytes false _⟩

theorem shape_withField {v v' : Value} (same : v'.shape = v.shape) :
    (withField before name v' after).shape = (Value.object (before ++ (name, v) :: after)).shape := by
  rw [withField, Value.shape, Value.shape, shapeFields_append, shapeFields_append, shapeFields_paintFields, shapeFields,
    shapeFields, shapeFields_paintFields, same]

end WithField

theorem marks_eq_nil {key k : String} {b : Bool} {field : String × Value}
    (absent : k ∉ (expand id (nestedKey key field.1) field.2).map Prod.fst) : marks key k b field = [] := by
  rw [marks, List.count_eq_zero_of_not_mem absent]
  rfl

theorem flatten_marks_eq_nil {key k : String} {b : Bool} {fields : List (String × Value)}
    (absent : ∀ field ∈ fields, k ∉ (expand id (nestedKey key field.1) field.2).map Prod.fst) :
    (fields.map (marks key k b)).flatten = [] := by
  rw [List.flatten_eq_nil_iff]
  intro xs member
  obtain ⟨field, inside, rfl⟩ := List.mem_map.mp member
  exact marks_eq_nil (absent field inside)

/-- Fields that share a key are told apart by painting the first of them in another colour. -/
theorem exists_disagree_shared (key : String) (fields : List (String × Value))
    (shared : ¬ ((expandFields id key fields).map fun ws => ws.map Prod.fst).Pairwise List.Disjoint) :
    ∃ v', Disagrees parseBytes key (.object fields) v' := by
  obtain ⟨before, xs, after, k, split, outside, inXs, ys, later, inYs⟩ := exists_shared shared
  rw [expandFields_eq, List.map_map] at split
  obtain ⟨before, rest, rfl, rfl, tail⟩ := List.map_eq_append_iff.mp split
  obtain ⟨⟨name, v⟩, after, rfl, rfl, rfl⟩ := List.map_eq_cons_iff.mp tail
  have quiet : (before.map (marks key k false)).flatten = [] :=
    flatten_marks_eq_nil fun field member => outside _ (List.mem_map_of_mem member)
  -- the marks of the later fields are zeros, and there are some
  obtain ⟨zeros, marked⟩ : ∃ zeros, (after.map (marks key k false)).reverse.flatten = 0 :: zeros := by
    obtain ⟨field, inside, rfl⟩ := List.mem_map.mp later
    have positive : 0 < ((expand id (nestedKey key field.1) field.2).map Prod.fst).count k :=
        List.count_pos_iff.mpr inYs
    have zero : (0 : Int) ∈ (after.map (marks key k false)).reverse.flatten :=
      List.mem_flatten.mpr ⟨marks key k false field, List.mem_reverse.mpr (List.mem_map_of_mem inside),
        List.mem_replicate.mpr ⟨positive.ne', rfl⟩⟩
    have all : ∀ x ∈ (after.map (marks key k false)).reverse.flatten, x = 0 := by
      intro x member
      obtain ⟨xs, inside, inXs⟩ := List.mem_flatten.mp member
      obtain ⟨field, -, rfl⟩ := List.mem_map.mp (List.mem_reverse.mp inside)
      exact List.eq_of_mem_replicate inXs
    cases marked : (after.map (marks key k false)).reverse.flatten with
    | nil => rw [marked] at zero; cases zero
    | cons x xs =>
      rw [marked] at all
      exact ⟨xs, by rw [all x List.mem_cons_self]⟩
  obtain ⟨ones, painted⟩ : ∃ ones, marks key k true (name, v) = 1 :: ones := by
    obtain ⟨n, count⟩ : ∃ n, ((expand id (nestedKey key name) v).map Prod.fst).count k = n + 1 :=
      ⟨_, (Nat.sub_add_cancel (List.count_pos_iff.mpr inXs)).symm⟩
    exact ⟨List.replicate n 1, by rw [marks, count]; rfl⟩
  refine ⟨withField before name (v.paint true) after, shape_withField name before after (shape_paint true v),
    valid_withField parseBytes key name before after _ ?_, fun agree => ?_⟩
  · rw [expand_paint natural_id]
    exact valid_painted parseBytes true _
  · have same := agree k
    rw [written_withField, written_withField_reverse, quiet, marked, List.nil_append,
      written_paint parseBytes natural_id (fun _ _ => .refl _) key k true (name, v), painted] at same
    exact absurd (List.cons.inj same).1 (by decide)

theorem flatten_reverse_nil {α : Type} {parts : List (List α)} (empty : parts.flatten = []) :
    parts.reverse.flatten = [] := by
  rw [List.flatten_eq_nil_iff] at empty ⊢
  exact fun xs member => empty xs (List.mem_reverse.mp member)

mutual

theorem exists_disagree (key : String) : (v : Value) → ¬ v.separate key → ∃ v', Disagrees parseBytes key v v'
  | .array items, joined => by
    rw [Value.separate, not_or] at joined
    obtain ⟨items', shape, valid, differ⟩ := exists_disagreeAll key 0 items joined.2
    have mixed : ¬ isPureAll items' = true := by
      rw [isPureAll_of_shape shape]
      exact joined.1
    refine ⟨.array items', congrArg Value.array shape, ?_, ?_⟩
    · rw [expand, if_neg mixed]
      exact valid
    · rw [expand, expand, if_neg mixed, if_neg mixed]
      exact differ
  | .object fields, joined => by
    by_cases apart : ((expandFields id key fields).map fun ws => ws.map Prod.fst).Pairwise List.Disjoint
    · obtain ⟨before, name, v, v', after, rfl, shape, valid, differ⟩ :=
        exists_disagreeFields key fields fun inner => joined ⟨apart, inner⟩
      refine ⟨withField before name v' after, shape_withField name before after shape,
        valid_withField parseBytes key name before after v' valid, fun agree => differ fun k => ?_⟩
      by_cases here : k ∈ (expand id (nestedKey key name) v).map Prod.fst
      · -- no other field has the key
        rw [expandFields_eq, List.map_map, List.map_append, List.map_cons, List.pairwise_append,
          List.pairwise_cons] at apart
        have quiet : (before.map (marks key k false)).flatten = [] := flatten_marks_eq_nil fun field member inside =>
          apart.2.2 _ (List.mem_map_of_mem member) _ List.mem_cons_self inside here
        have quiet' : (after.map (marks key k false)).flatten = [] := flatten_marks_eq_nil fun field member inside =>
          apart.2.1.1 _ (List.mem_map_of_mem member) here inside
        have same := agree k
        rw [written_withField, written_withField_reverse, quiet, quiet', List.nil_append, List.append_nil,
          flatten_reverse_nil quiet, flatten_reverse_nil quiet', List.nil_append, List.append_nil] at same
        exact same
      · have absent : k ∉ (expand id (nestedKey key name) v').map Prod.fst := by
          rw [keys_of_shape natural_id _ shape]
          exact here
        have absent' : k ∉ (expand List.reverse (nestedKey key name) v').map Prod.fst :=
          fun inside => absent (((expand_perm _ v').map Prod.fst).mem_iff.mp inside)
        rw [written_eq_nil parseBytes absent, written_eq_nil parseBytes absent']
    · exact exists_disagree_shared parseBytes key fields apart
  | .null, joined => (joined trivial).elim
  | .bool _, joined => (joined trivial).elim
  | .number _, joined => (joined trivial).elim
  | .string _, joined => (joined trivial).elim

theorem exists_disagreeAll (key : String) : (idx : Nat) → (items : List Value) → ¬ separateAll key idx items →
    ∃ items', shapeAll items' = shapeAll items ∧
      (∀ w ∈ expandItems id key idx items', (w.2.element parseBytes).isSome) ∧
      ¬ Agree parseBytes (expandItems List.reverse key idx items') (expandItems id key idx items')
  | _, [], joined => (joined trivial).elim
  | idx, v :: vs, joined => by
    by_cases first : v.separate (indexedKey key idx)
    · obtain ⟨vs', shape, valid, differ⟩ :=
        exists_disagreeAll key (idx + 1) vs fun rest => joined ⟨first, rest⟩
      refine ⟨v.paint false :: vs', congrArg₂ List.cons (shape_paint false v) shape, ?_, ?_⟩
      · rw [expandItems, List.forall_mem_append, expand_paint natural_id]
        exact ⟨valid_painted parseBytes false _, valid⟩
      · rw [expandItems, expandItems, agree_append parseBytes (expand_perm _ _)]
        exact fun agree => differ agree.2
    · obtain ⟨v', shape, valid, differ⟩ := exists_disagree (indexedKey key idx) v first
      refine ⟨v' :: paintAll false vs, congrArg₂ List.cons shape (shapeAll_paintAll false vs), ?_, ?_⟩
      · rw [expandItems, List.forall_mem_append, expandItems_paint natural_id]
        exact ⟨valid, valid_painted parseBytes false _⟩
      · rw [expandItems, expandItems, agree_append parseBytes (expand_perm _ _)]
        exact fun agree => differ agree.1

theorem exists_disagreeFields (key : String) : (fields : List (String × Value)) → ¬ separateFields key fields →
    ∃ before name v v' after, fields = before ++ (name, v) :: after ∧
      Disagrees parseBytes (nestedKey key name) v v'
  | [], joined => (joined trivial).elim
  | (name, v) :: fields, joined => by
    by_cases first : v.separate (nestedKey key name)
    · obtain ⟨before, name', v₁, v', after, rfl, disagrees⟩ :=
        exists_disagreeFields key fields fun rest => joined ⟨first, rest⟩
      exact ⟨(name, v) :: before, name', v₁, v', after, rfl, disagrees⟩
    · obtain ⟨v', disagrees⟩ := exists_disagree (nestedKey key name) v first
      exact ⟨[], name, v, v', fields, rfl, disagrees⟩

end

mutual

theorem shape_shape : (v : Value) → v.shape.shape = v.shape
  | .array items => congrArg Value.array (shapeAll_shapeAll items)
  | .object fields => congrArg Value.object (shapeFields_shapeFields fields)
  | .null => rfl
  | .bool _ => rfl
  | .number _ => rfl
  | .string _ => rfl

theorem shapeAll_shapeAll : (items : List Value) → shapeAll (shapeAll items) = shapeAll items
  | [] => rfl
  | v :: vs => congrArg₂ List.cons (shape_shape v) (shapeAll_shapeAll vs)

theorem shapeFields_shapeFields : (fields : List (String × Value)) →
    shapeFields (shapeFields fields) = shapeFields fields
  | [] => rfl
  | (field, v) :: fields => congrArg₂ List.cons (congrArg (Prod.mk field) (shape_shape v))
      (shapeFields_shapeFields fields)

end

theorem fieldKeys_shape (key : String) (fields : List (String × Value)) :
    (expandFields id key (shapeFields fields)).map (fun ws => ws.map Prod.fst) =
      (expandFields id key fields).map fun ws => ws.map Prod.fst := by
  induction fields with
  | nil => rfl
  | cons field fields ih =>
    obtain ⟨name, v⟩ := field
    exact congrArg₂ List.cons (keys_of_shape natural_id _ (shape_shape v)) ih

mutual

/-- Which keys are shared is a matter of the shape. -/
theorem separate_shape (key : String) : (v : Value) → (v.shape.separate key ↔ v.separate key)
  | .array items => by
    rw [Value.shape, Value.separate, Value.separate, isPureAll_of_shape (shapeAll_shapeAll items),
      separateAll_shapeAll key 0 items]
  | .object fields => by
    rw [Value.shape, Value.separate, Value.separate, fieldKeys_shape, separateFields_shapeFields key fields]
  | .null => Iff.rfl
  | .bool _ => Iff.rfl
  | .number _ => Iff.rfl
  | .string _ => Iff.rfl

theorem separateAll_shapeAll (key : String) : (idx : Nat) → (items : List Value) →
    (separateAll key idx (shapeAll items) ↔ separateAll key idx items)
  | _, [] => Iff.rfl
  | idx, v :: vs => and_congr (separate_shape _ v) (separateAll_shapeAll key (idx + 1) vs)

theorem separateFields_shapeFields (key : String) : (fields : List (String × Value)) →
    (separateFields key (shapeFields fields) ↔ separateFields key fields)
  | [] => Iff.rfl
  | (_, v) :: fields => and_congr (separate_shape _ v) (separateFields_shapeFields key fields)

end

theorem keysSeparate_shapeFields (fields : List (String × Value)) :
    KeysSeparate (shapeFields fields) ↔ KeysSeparate fields := by
  induction fields with
  | nil => exact Iff.rfl
  | cons field fields ih =>
    obtain ⟨name, v⟩ := field
    unfold KeysSeparate at ih ⊢
    rw [shapeFields, List.forall_mem_cons, List.forall_mem_cons, ih]
    exact and_congr_left fun _ => separate_shape name v

theorem agree_of_keysSeparate {fields : List (String × Value)} (separate : KeysSeparate fields) :
    Agree parseBytes (inputWrites List.reverse fields) (inputWrites id fields) := by
  induction fields with
  | nil => exact fun _ => rfl
  | cons field fields ih =>
    obtain ⟨first, rest⟩ := List.forall_mem_cons.mp separate
    rw [inputWrites, List.flatMap_cons, inputWrites, List.flatMap_cons,
      agree_append parseBytes (expand_perm field.1 field.2)]
    exact ⟨agree_of_separate parseBytes _ _ first, ih rest⟩

theorem exists_disagree_inputs {fields : List (String × Value)} (joined : ¬ KeysSeparate fields) :
    ∃ fields', shapeFields fields' = shapeFields fields ∧
      (∀ w ∈ inputWrites id fields', (w.2.element parseBytes).isSome) ∧
      ¬ Agree parseBytes (inputWrites List.reverse fields') (inputWrites id fields') := by
  induction fields with
  | nil => exact absurd (fun _ member => (List.not_mem_nil member).elim) joined
  | cons field fields ih =>
    obtain ⟨name, v⟩ := field
    by_cases first : v.separate name
    · obtain ⟨fields', shape, valid, differ⟩ := ih fun rest => joined (List.forall_mem_cons.mpr ⟨first, rest⟩)
      refine ⟨(name, v.paint false) :: fields',
        congrArg₂ List.cons (congrArg (Prod.mk name) (shape_paint false v)) shape, ?_, ?_⟩
      · rw [inputWrites, List.flatMap_cons, List.forall_mem_append, expand_paint natural_id]
        exact ⟨valid_painted parseBytes false _, valid⟩
      · rw [inputWrites, List.flatMap_cons, inputWrites, List.flatMap_cons, agree_append parseBytes (expand_perm _ _)]
        exact fun agree => differ agree.2
    · obtain ⟨v', shape, valid, differ⟩ := exists_disagree parseBytes name v first
      have rest : ∀ w ∈ inputWrites id (paintFields false fields), (w.2.element parseBytes).isSome := by
        clear ih joined
        induction fields with
        | nil => simp [inputWrites, paintFields]
        | cons field fields ih =>
          rw [paintFields, inputWrites, List.flatMap_cons, List.forall_mem_append, expand_paint natural_id]
          exact ⟨valid_painted parseBytes false _, ih⟩
      refine ⟨(name, v') :: paintFields false fields,
        congrArg₂ List.cons (congrArg (Prod.mk name) shape) (shapeFields_paintFields false fields), ?_, ?_⟩
      · rw [inputWrites, List.flatMap_cons, List.forall_mem_append]
        exact ⟨valid, rest⟩
      · rw [inputWrites, List.flatMap_cons, inputWrites, List.flatMap_cons, agree_append parseBytes (expand_perm _ _)]
        exact fun agree => differ agree.1

end Shape

/-- The flattening is the recursion for an input just if its nested objects write the same lists read from
their last fields to the first, and for every input of a shape just if no two fields of a nested object of
that shape write under one key. -/
theorem flatten_matches_iff (fields : List (String × Value)) :
    (Matches parseBytes fields ↔ ((∀ w ∈ inputWrites id fields, (w.2.element parseBytes).isSome) →
      ∀ o ∈ nestedObjects fields, ObjectAgrees parseBytes o)) ∧
    ((∀ fields', shapeFields fields' = shapeFields fields → Matches parseBytes fields') ↔ KeysSeparate fields) := by
  refine ⟨matches_iff parseBytes fields, fun all => ?_, fun separate fields' same => ?_⟩
  · by_contra joined
    obtain ⟨fields', shape, valid, differ⟩ := exists_disagree_inputs parseBytes joined
    exact differ ((inputWrites_agree_iff parseBytes fields').mpr
      ((matches_iff parseBytes fields').mp (all fields' shape) valid))
  · have separate' : KeysSeparate fields' := by
      rw [← keysSeparate_shapeFields, same, keysSeparate_shapeFields]
      exact separate
    exact (matches_iff parseBytes fields').mpr fun _ =>
      (inputWrites_agree_iff parseBytes fields').mp (agree_of_keysSeparate parseBytes separate')

/-- A nested object two of whose fields write under `x.a.b`. -/
def sharedKey : List (String × Value) :=
  [("x", .object [("a", .object [("b", .number (.posInt 2))]), ("a.b", .number (.posInt 1))])]

/-- The list is `[1, 2]` where the recursion gives `[2, 1]`. -/
theorem shared_key_reversed :
    (∃ m, inputsHashmap (fun _ _ => none) (.object sharedKey) = .ok m ∧ m "x.a.b" = some [1, 2]) ∧
      written (fun _ _ => none) (inputWrites id sharedKey) "x.a.b" = [2, 1] ∧
      ¬ Matches (fun _ _ => none) sharedKey := by
  have plain : written (fun _ _ => none) (inputWrites id sharedKey) "x.a.b" = [2, 1] := by decide +kernel
  have turned : written (fun _ _ => none) (inputWrites List.reverse sharedKey) "x.a.b" = [1, 2] := by decide +kernel
  refine ⟨?_, plain, fun right => ?_⟩
  · rw [inputsHashmap_eq]
    rcases foldlM_write (fun _ _ => none) (inputWrites List.reverse sharedKey) fun _ => none with
      ⟨-, m, run, lists⟩ | ⟨invalid, -⟩
    · refine ⟨m, run, ?_⟩
      rw [lists, turned]
      rfl
    · exact absurd invalid (by decide +kernel)
  · have agree := (inputWrites_agree_iff _ _).mpr ((matches_iff _ _).mp right (by decide +kernel)) "x.a.b"
    rw [plain, turned] at agree
    exact absurd agree (by decide)

end PrivatePayments.Witness
