import GbServer.ProtobufStack
import GbServer.ProtobufRoundTrip
/-!
# ProtobufSimulation — the stack and the slots that are free

Where reflection shows the fields of a tree, the converters on a stack do what `protobufNewTable` and `fillLuaTable` say from
the free slots alone: `protobuf_new_table` pushes that table, and `fill_lua_table` returns exactly if that fills a message.
-/
namespace Gb.LuaStack

open StackProgram (Program push)
open Msgpack (LuaValue IntType)

variable {ref : Reflection}

/-- Reflection shows the fields of the tree, and in the message their values. -/
def Shows (ref : Reflection) : (d : Descriptor) → {M : Type} → List (FieldDescriptor ref.Message M) → M → d.Msg → Prop
  | .nil,                    _, fields, _,   _ => fields = []
  | .scalar name _ t _ rest, _, fields, msg, m => ∃ get set more, fields = .scalar name t get set :: more ∧
      get msg = m.1 ∧ Shows ref rest more msg m.2
  | .message name _ d rest,  _, fields, msg, m => ∃ type get mutableMessage put more,
      fields = .message name type get mutableMessage put :: more ∧
      Shows ref d (ref.fields type) (get msg) m.1 ∧ Shows ref rest more msg m.2
  | .scalars name t rest,    _, fields, msg, m => ∃ elements add more, fields = .scalars name t elements add :: more ∧
      elements msg = m.1 ∧ Shows ref rest more msg m.2
  | .messages name d rest,   _, fields, msg, m => ∃ type elements added put more,
      fields = .messages name type elements added put :: more ∧
      List.Forall₂ (Shows ref d (ref.fields type)) (elements msg).val m.1.val ∧ Shows ref rest more msg m.2

variable {limit : Nat} {α β : Type}

/-- A program pushes a value, where there is one for the slots that are free. -/
def Yields (limit : Nat) (m : LuaStack Unit) (value : Nat → Option LuaValue) (stack : List LuaValue) : Prop :=
  m stack = (value (limit - stack.length)).map fun v => ((), v :: stack)

theorem push_bind (v : LuaValue) (f : Unit → LuaStack β) (stack : List LuaValue) :
    (push limit v >>= f) stack = if limit - stack.length < 1 then none else f () (v :: stack) := by
  rw [StackProgram.bind_apply]
  unfold push
  by_cases h : stack.length < limit
  · rw [if_pos h, if_neg (Nat.not_lt.2 (Nat.sub_pos_of_lt h))]
    rfl
  · have hfull : limit - stack.length < 1 := by omega
    rw [if_neg h, if_pos hfull]
    rfl

theorem push_yields (v : LuaValue) (stack : List LuaValue) :
    Yields limit (push limit v) (fun free => if free < 1 then none else some v) stack := by
  unfold Yields
  rw [← bind_pure (push limit v), push_bind]
  dsimp only
  split <;> rfl

/-- A key, a value and the assignment. -/
theorem assign_run {key key' : LuaValue} (hkey : key.key = some key') {m : LuaStack Unit} {value : Nat → Option LuaValue}
    {entries : LuaEntries} {stack : List LuaValue} (hm : Yields limit m value (key :: .table entries :: stack)) :
    (do push limit key; m; rawSet : LuaStack Unit) (.table entries :: stack) =
      if limit - (stack.length + 1) < 1 then none
      else (value (limit - (stack.length + 1) - 1)).map fun v => ((), .table (LuaValue.set key' v entries) :: stack) := by
  rw [push_bind, StackProgram.bind_apply, hm, List.length_cons, List.length_cons, List.length_cons, Nat.sub_sub]
  refine if_congr Iff.rfl rfl ?_
  cases value (limit - (stack.length + 1 + 1)) with
  | none   => rfl
  | some v =>
    change key.key.map _ = _
    rw [hkey]
    rfl

/-- The loop over the elements of an array, of which the first `j` are there. -/
theorem elements_run {pushElement : α → LuaStack Unit} {value : β → Nat → Option LuaValue} {stack : List LuaValue} :
    ∀ {elements : List α} {elements' : List β} (j : Nat) (entries : LuaEntries),
      List.Forall₂ (fun x y => ∀ entries (i : LuaValue), Yields limit (pushElement x) (value y) (i :: .table entries :: stack))
        elements elements' →
      ((elements.zipIdx j).forM (setElement limit pushElement) : LuaStack Unit) (.table entries :: stack) =
      (elements'.mapM fun y => if limit - (stack.length + 1) < 1 then none else value y (limit - (stack.length + 1) - 1)).map
        fun values => ((), .table (setElements j values entries) :: stack)
  | _, _, j, entries, .nil => rfl
  | x :: elements, y :: elements', j, entries, .cons hx hmore => by
    have hfirst : setElement limit pushElement (x, j) (.table entries :: stack) = _ := assign_run rfl (hx entries _)
    change (setElement limit pushElement (x, j) >>= fun _ => (elements.zipIdx (j + 1)).forM _) (.table entries :: stack) = _
    rw [StackProgram.bind_apply, hfirst, List.mapM_cons]
    split
    · rfl
    · cases value y (limit - (stack.length + 1) - 1) with
      | none   => rfl
      | some v =>
        refine (elements_run (j + 1) (LuaValue.set (.integer (IntType.int64.wrap (j + 1 : Nat))) v entries) hmore).trans ?_
        rename_i hfree
        simp only [if_neg hfree]
        change _ = Option.map _ (Option.bind _ _)
        rw [Option.map_bind]
        cases (elements'.mapM fun y => value y (limit - (stack.length + 1) - 1)) <;> rfl

/-- The array of a repeated field. -/
theorem pushArray_yields {elements : List α} {elements' : List β} {pushElement : α → LuaStack Unit}
    {value : β → Nat → Option LuaValue} {stack : List LuaValue}
    (h : List.Forall₂ (fun x y => ∀ entries (i : LuaValue),
      Yields limit (pushElement x) (value y) (i :: .table entries :: stack)) elements elements') :
    Yields limit (pushArray limit elements pushElement) (fun free => if free < 1 then none else
      (elements'.mapM fun y => if free - 1 < 1 then none else value y (free - 2)).map fun values =>
        .table (setElements 0 values [])) stack := by
  unfold Yields pushArray
  rw [push_bind]
  dsimp only
  split
  · rfl
  · rw [elements_run 0 [] h, Option.map_map]
    simp only [← Nat.sub_sub]
    rfl

/-- `createTable`, by a loop over the fields. -/
theorem newTable_yields {type : ref.Descriptor} {msg : ref.Message type} {value : Nat → Option LuaEntries} {stack : List LuaValue}
    {depth : Nat} (hdepth : limit - stack.length ≤ depth)
    (hfields : ∀ depth, limit - (stack.length + 1) ≤ depth →
      (ref.fields type).forM (setField limit ref (protobufNewTable limit ref depth) msg) (.table [] :: stack) =
        (value (limit - (stack.length + 1))).map fun result => ((), .table result :: stack)) :
    Yields limit (protobufNewTable limit ref depth msg) (fun free => createTable free value) stack := by
  unfold Yields createTable
  dsimp only
  by_cases hfree : limit - stack.length < 1
  · rw [if_pos hfree]
    cases depth with
    | zero       => rfl
    | succ depth =>
      rw [protobufNewTable, push_bind, if_pos hfree]
      rfl
  · rw [if_neg hfree]
    obtain ⟨depth, rfl⟩ := Nat.exists_eq_succ_of_ne_zero (n := depth) (by omega)
    rw [protobufNewTable, push_bind, if_neg hfree, hfields depth (by omega), Option.map_map, Nat.sub_sub]
    rfl

section

variable {M : Type} {msg : M} {fd : FieldDescriptor ref.Message M} {more : List (FieldDescriptor ref.Message M)}
  {newTable : {type : ref.Descriptor} → ref.Message type → LuaStack Unit}

/-- A field and the loop over the others. -/
theorem fields_run {value : Nat → Option LuaValue} {rest : LuaEntries → Option LuaEntries} {entries : LuaEntries}
    {stack : List LuaValue}
    (hfield : setField limit ref newTable msg fd (.table entries :: stack) =
      if limit - (stack.length + 1) < 1 then none
      else (value (limit - (stack.length + 1) - 1)).map fun v => ((), .table (LuaValue.set (.string fd.name) v entries) :: stack))
    (hmore : ∀ entries, (more.forM (setField limit ref newTable msg) : LuaStack Unit) (.table entries :: stack) =
      (rest entries).map fun result => ((), .table result :: stack)) :
    ((fd :: more).forM (setField limit ref newTable msg) : LuaStack Unit) (.table entries :: stack) =
      (if limit - (stack.length + 1) < 1 then none
        else (value (limit - (stack.length + 1) - 1)).bind fun v => rest (LuaValue.set (.string fd.name) v entries)).map
          fun result => ((), .table result :: stack) := by
  change (setField limit ref newTable msg fd >>= fun _ => more.forM _) (.table entries :: stack) = _
  rw [StackProgram.bind_apply, hfield]
  split
  · rfl
  · cases value (limit - (stack.length + 1) - 1) with
    | none   => rfl
    | some v => exact hmore _

end

/-- A key takes a slot, and a value another. -/
theorem field_of_slots {free : Nat} {value : Option LuaValue} {k : LuaValue → Option LuaEntries} :
    (if free < 1 then none else (if free - 1 < 1 then none else value).bind k) = if free < 2 then none else value.bind k := by
  by_cases hkey : free < 1
  · rw [if_pos hkey, if_pos (Nat.lt_succ_of_lt hkey)]
  · by_cases hvalue : free - 1 < 1
    · have hfree : free < 2 := by omega
      rw [if_neg hkey, if_pos hvalue, if_pos hfree]
      rfl
    · have hfree : ¬free < 2 := by omega
      rw [if_neg hkey, if_neg hvalue, if_neg hfree]

theorem mapM_unless (c : Prop) [Decidable c] (f : α → β) (l : List α) :
    (l.mapM fun x => if c then none else some (f x)) = if l ≠ [] ∧ c then none else some (l.map f) := by
  by_cases h : c
  · cases l with
    | nil       => rfl
    | cons x xs =>
      simp only [if_pos h, List.mapM_cons]
      rw [if_pos ⟨List.cons_ne_nil _ _, h⟩]
      rfl
  · simp only [h, and_false, if_false]
    exact List.mapM_pure

/-- The loop over the fields sets those of the tree. -/
theorem newFields_run : ∀ (d : Descriptor) {M : Type} {fields : List (FieldDescriptor ref.Message M)} {msg : M} {m : d.Msg},
    Shows ref d fields msg m → ∀ (depth : Nat) (entries : LuaEntries) (stack : List LuaValue),
      limit - (stack.length + 1) ≤ depth →
      (fields.forM (setField limit ref (protobufNewTable limit ref depth) msg) : LuaStack Unit) (.table entries :: stack) =
        (newFields d m (limit - (stack.length + 1)) entries).map fun result => ((), .table result :: stack)
  | .nil, _, _, _, _, hshows, _, entries, stack, _ => by
    obtain rfl : _ = [] := hshows
    rfl
  | .scalar name _ t _ rest, M, fields, msg, m, hshows, depth, entries, stack, hdepth => by
    obtain ⟨get, set, more, rfl, hget, hmore⟩ := hshows
    have hrest := fun entries => newFields_run rest hmore depth entries stack hdepth
    refine (fields_run (assign_run rfl (push_yields _ _)) hrest).trans (congrArg _ ?_)
    rw [newFields, ← hget]
    generalize limit - (stack.length + 1) = free
    rw [field_of_slots]
    rfl
  | .message name _ d rest, M, fields, msg, m, hshows, depth, entries, stack, hdepth => by
    obtain ⟨type, get, mutableMessage, put, more, rfl, hget, hmore⟩ := hshows
    have hrest := fun entries => newFields_run rest hmore depth entries stack hdepth
    have htable : Yields limit (protobufNewTable limit ref depth (get msg))
        (fun free => createTable free fun free => newFields d m.1 free []) (.string name :: .table entries :: stack) :=
      newTable_yields (by simp only [List.length_cons]; omega) fun depth hdepth => newFields_run d hget depth [] _ hdepth
    refine (fields_run (assign_run rfl htable) hrest).trans (congrArg _ ?_)
    rw [newFields]
    generalize limit - (stack.length + 1) = free
    by_cases hfree : free < 1
    · have hnone : createTable (free - 1) (fun free => newFields d m.1 free []) = none := if_pos (by omega)
      rw [if_pos hfree, hnone]
      rfl
    · rw [if_neg hfree]
      rfl
  | .scalars name t rest, M, fields, msg, m, hshows, depth, entries, stack, hdepth => by
    obtain ⟨elements, add, more, rfl, hget, hmore⟩ := hshows
    have hrest := fun entries => newFields_run rest hmore depth entries stack hdepth
    have helements : List.Forall₂ (fun x y => ∀ entries' (i : LuaValue), Yields limit (push limit (t.push x))
        (fun free => if free < 1 then none else some (t.push y)) (i :: .table entries' :: .string name :: .table entries :: stack))
        (elements msg).val (elements msg).val :=
      List.forall₂_same.2 fun x _ _ _ => push_yields _ _
    refine (fields_run (assign_run rfl (pushArray_yields helements)) hrest).trans (congrArg _ ?_)
    rw [newFields, ← hget]
    generalize limit - (stack.length + 1) = free
    have hslots : ∀ y : t.Val, (if free - 1 - 1 < 1 then none else if free - 1 - 2 < 1 then none else some (t.push y))
        = if free < 4 then none else some (t.push y) := by
      intro y
      split_ifs <;> first | rfl | omega
    simp only [field_of_slots, hslots, mapM_unless]
    by_cases hfree : free < 2
    · rw [if_pos hfree, if_pos (.inl hfree)]
    · simp only [hfree, if_false, false_or]
      split <;> rfl
  | .messages name d rest, M, fields, msg, m, hshows, depth, entries, stack, hdepth => by
    obtain ⟨type, elements, added, put, more, rfl, hget, hmore⟩ := hshows
    have hrest := fun entries => newFields_run rest hmore depth entries stack hdepth
    have helements : List.Forall₂ (fun x y => ∀ entries' (i : LuaValue), Yields limit (protobufNewTable limit ref depth x)
        (fun free => createTable free fun free => newFields d y free [])
        (i :: .table entries' :: .string name :: .table entries :: stack)) (elements msg).val m.1.val :=
      hget.imp fun x y hxy entries' i => newTable_yields (by simp only [List.length_cons]; omega)
        fun depth hdepth => newFields_run d hxy depth [] _ hdepth
    refine (fields_run (assign_run rfl (pushArray_yields helements)) hrest).trans (congrArg _ ?_)
    rw [newFields]
    generalize limit - (stack.length + 1) = free
    have hslots : ∀ y : d.Msg, (if free - 1 - 1 < 1 then none else createTable (free - 1 - 2) fun free => newFields d y free [])
        = createTable (free - 3) fun free => newFields d y free [] := by
      intro y
      by_cases hfree : free - 1 - 1 < 1
      · have hnone : createTable (free - 3) (fun free => newFields d y free []) = none := if_pos (by omega)
        rw [if_pos hfree, hnone]
      · rw [if_neg hfree, Nat.sub_sub]
    simp only [field_of_slots, hslots]
    by_cases hfree : free < 2
    · rw [if_pos hfree, if_pos hfree]
      rfl
    · rw [if_neg hfree, if_neg hfree]
      exact Option.bind_map ..

/-- **`protobuf_new_table` pushes the table that `protobufNewTable` computes for the slots that are free, and returns
exactly if it finds room; calls inside one another never need more room than that.** -/
theorem protobufNewTable_yields {d : Descriptor} {type : ref.Descriptor} {msg : ref.Message type} {m : d.Msg}
    (hshows : Shows ref d (ref.fields type) msg m) {depth : Nat} {stack : List LuaValue} (hdepth : limit - stack.length ≤ depth) :
    protobufNewTable limit ref depth msg stack
      = (Gb.protobufNewTable d m (limit - stack.length)).map fun table => ((), table :: stack) :=
  newTable_yields hdepth fun depth hdepth => newFields_run d hshows depth [] stack hdepth

/-! ## From Lua -/

/-- Reflection shows the fields of the tree. -/
def Declares (ref : Reflection) : Descriptor → {M : Type} → List (FieldDescriptor ref.Message M) → Prop
  | .nil,                    _, fields => fields = []
  | .scalar name _ t _ rest, _, fields => ∃ get set more, fields = .scalar name t get set :: more ∧ Declares ref rest more
  | .message name _ d rest,  _, fields => ∃ type get mutableMessage put more,
      fields = .message name type get mutableMessage put :: more ∧ Declares ref d (ref.fields type) ∧ Declares ref rest more
  | .scalars name t rest,    _, fields => ∃ elements add more, fields = .scalars name t elements add :: more ∧
      Declares ref rest more
  | .messages name d rest,   _, fields => ∃ type elements added put more,
      fields = .messages name type elements added put :: more ∧ Declares ref d (ref.fields type) ∧ Declares ref rest more

/-- Lua with nothing but these coercions. -/
def plain (lua : LuaCoercions) : LuaApi where
  toLuaCoercions := lua
  getField := luaGetField lua
  rawLen := luaRawLen

theorem mapM_isSome_iff {f : α → Option β} : ∀ {l : List α}, (l.mapM f).isSome ↔ ∀ x ∈ l, (f x).isSome
  | []     => iff_of_true rfl nofun
  | x :: l => by
    rw [List.mapM_cons, List.forall_mem_cons, ← mapM_isSome_iff (l := l)]
    cases f x with
    | none   => exact iff_of_false nofun fun h => nomatch h.1
    | some y => cases l.mapM f <;> simp

/-- The elements can be read, where at most one thing is added for each; then the message can hold them. -/
theorem readElements_isSome_iff (lua : LuaCoercions) {free : Nat} {value : LuaValue} {read : LuaValue → Option (List α)}
    (hread : ∀ value added, read value = some added → added.length ≤ 1) :
    (readElements free value read).isSome ↔ ∀ i ∈ indices (plain lua) value,
      ∃ element, luaRawGetI value i = some element ∧ 1 ≤ free ∧ (read element).isSome := by
  have helement : ∀ i, (if free < 1 then none else (luaRawGetI value i).bind read).isSome ↔
      ∃ element, luaRawGetI value i = some element ∧ 1 ≤ free ∧ (read element).isSome := by
    intro i
    split
    · exact iff_of_false nofun fun ⟨_, _, h, _⟩ => by omega
    · have hfree : 1 ≤ free := by omega
      cases luaRawGetI value i with
      | none   => simp
      | some v => simp [hfree]
  simp only [← helement, ← mapM_isSome_iff, readElements, Option.bind_eq_bind]
  change (Option.bind ((indices (plain lua) value).mapM _) _).isSome ↔ _
  cases hadded : (indices (plain lua) value).mapM fun i => if free < 1 then none else (luaRawGetI value i).bind read with
  | none       => rfl
  | some added =>
    have hlength := length_flatten_mapM (fun i added h => by
      split at h
      · cases h
      · obtain ⟨value, -, hvalue⟩ := Option.bind_eq_some_iff.1 h
        exact hread value added hvalue) hadded
    have hint : (IntType.int32.wrap ((plain lua).rawLen value)).val ≤ 2147483647 := (IntType.int32.wrap _).property.2
    have hfits : added.flatten.length < 2 ^ 31 := by
      rw [indices, List.length_range'] at hlength
      omega
    rw [Option.bind_some, dif_pos hfits]
    rfl

/-- A field and those after it. -/
theorem field_isSome_iff {free : Nat} {found : Option LuaValue} {x : LuaValue → Option α} {rest : Option β} {γ : Type}
    {g : α → β → γ} :
    ((if free < 1 then none else found.bind fun value => (x value).bind fun a => rest.bind fun b => some (g a b)).isSome ↔
      (∃ value, found = some value ∧ 1 < free + 1 ∧ (x value).isSome) ∧ rest.isSome) := by
  split
  · exact iff_of_false nofun fun ⟨⟨_, _, h, _⟩, _⟩ => by omega
  · have hfree : 1 < free + 1 := by omega
    cases found with
    | none       => simp
    | some value => cases hx : x value <;> cases rest <;> simp [hx, hfree]

theorem setScalar_isSome_iff {lua : LuaCoercions} {type : CppType} {default : type.Val} {value : LuaValue} :
    (setScalar lua type default value).isSome ↔
      type ≠ .uint32 ∧ type ≠ .uint64 ∧ (type = .enum ∨ ∃ read, type.read lua value = some read) := by
  cases type <;> simp [setScalar, Option.isSome_iff_exists]

theorem readScalar_isSome_iff {lua : LuaCoercions} {type : CppType} {value : LuaValue} :
    (readScalar lua type value).isSome ↔ type = .enum ∨ ∃ read, type.read lua value = some read := by
  unfold readScalar
  by_cases h : type = .enum
  · simp [h]
  · simp [h, Option.isSome_iff_exists]

theorem pushValue_isSome_iff {free : Nat} {fields : Nat → Option α} :
    (pushValue free fields).isSome ↔ 0 < free ∧ (fields (free - 1)).isSome := by
  simp only [Option.isSome_iff_exists, pushValue_iff, exists_and_left, Nat.succ_le_iff]

variable {lua : LuaCoercions}

/-- A value can be read as a message, by what is said of its fields. -/
theorem readable_of_fields {type : ref.Descriptor} {value : LuaValue} {depth n : Nat} {fill : Nat → Option α} (hdepth : n ≤ depth)
    (hfields : ∀ depth free, free ≤ depth →
      ((∀ fd ∈ ref.fields type, ReadableField ref (plain lua) (Readable ref (plain lua) depth) value (free + 1) fd) ↔
        (fill free).isSome)) :
    Readable ref (plain lua) depth type value n ↔ (pushValue n fill).isSome := by
  rw [pushValue_isSome_iff]
  cases n with
  | zero   => exact iff_of_false (fun h => by cases depth <;> first | exact h | exact absurd h.1 (lt_irrefl 0)) nofun
  | succ n =>
    obtain ⟨depth, rfl⟩ := Nat.exists_eq_succ_of_ne_zero (n := depth) (by omega)
    exact and_congr_right fun _ => hfields depth n (by omega)

/-- The loop over the fields finds those of the tree. -/
theorem readableFields_iff : ∀ (d : Descriptor) {M : Type} {fields : List (FieldDescriptor ref.Message M)},
    Declares ref d fields → ∀ (depth free : Nat) (value : LuaValue), free ≤ depth →
      ((∀ fd ∈ fields, ReadableField ref (plain lua) (Readable ref (plain lua) depth) value (free + 1) fd) ↔
        (fillFields lua d free value).isSome)
  | .nil, _, _, hdeclares, _, _, _, _ => by
    obtain rfl : _ = [] := hdeclares
    exact iff_of_true nofun rfl
  | .scalar name oneof t default rest, _, _, hdeclares, depth, free, value, hdepth => by
    obtain ⟨get, set, more, rfl, hmore⟩ := hdeclares
    rw [List.forall_mem_cons, readableFields_iff rest hmore depth free value hdepth]
    refine Iff.trans ?_ field_isSome_iff.symm
    refine and_congr_left fun _ => exists_congr fun found => and_congr_right fun _ => and_congr_right fun _ => ?_
    exact setScalar_isSome_iff.symm
  | .message name oneof d rest, _, _, hdeclares, depth, free, value, hdepth => by
    obtain ⟨type, get, mutableMessage, put, more, rfl, hinner, hmore⟩ := hdeclares
    rw [List.forall_mem_cons, readableFields_iff rest hmore depth free value hdepth]
    refine Iff.trans ?_ field_isSome_iff.symm
    refine and_congr_left fun _ => exists_congr fun found => and_congr_right fun _ => and_congr_right fun _ => ?_
    exact readable_of_fields (by omega) fun depth free hdepth => readableFields_iff d hinner depth free found hdepth
  | .scalars name t rest, _, _, hdeclares, depth, free, value, hdepth => by
    obtain ⟨elements, add, more, rfl, hmore⟩ := hdeclares
    rw [List.forall_mem_cons, readableFields_iff rest hmore depth free value hdepth]
    refine Iff.trans ?_ field_isSome_iff.symm
    refine and_congr_left fun _ => exists_congr fun found => and_congr_right fun _ => and_congr_right fun _ => ?_
    refine Iff.trans ?_ (readElements_isSome_iff lua fun _ _ => readScalar_length).symm
    refine forall₂_congr fun i _ => exists_congr fun element => and_congr_right fun _ => ?_
    exact and_congr (by omega) readScalar_isSome_iff.symm
  | .messages name d rest, _, _, hdeclares, depth, free, value, hdepth => by
    obtain ⟨type, elements, added, put, more, rfl, hinner, hmore⟩ := hdeclares
    rw [List.forall_mem_cons, readableFields_iff rest hmore depth free value hdepth]
    refine Iff.trans ?_ field_isSome_iff.symm
    refine and_congr_left fun _ => exists_congr fun found => and_congr_right fun _ => and_congr_right fun _ => ?_
    refine Iff.trans ?_ (readElements_isSome_iff lua fun _ _ => readMessage_length).symm
    refine forall₂_congr fun i _ => exists_congr fun element => and_congr_right fun _ => and_congr (by omega) ?_
    refine readable_of_fields (by omega) fun depth free hdepth => ?_
    rw [Option.isSome_map]
    exact readableFields_iff d hinner depth free element hdepth

/-- **`fill_lua_table` returns exactly if `fillLuaTable` fills a message with the slots that are free.** -/
theorem fillValue_returns_iff {d : Descriptor} {type : ref.Descriptor} (hdeclares : Declares ref d (ref.fields type))
    (msg : ref.Message type) (value : LuaValue) {depth : Nat} {stack : List LuaValue} (hdepth : limit - stack.length ≤ depth) :
    (∃ filled t, fillValue limit ref (plain lua) depth msg value stack = some (filled, t)) ↔
      (Gb.fillLuaTable lua d (limit - stack.length) value).isSome := by
  have hkept : StackProgram.Triple limit [] (fillValue limit ref (plain lua) depth msg value) _ _ := fillValue_kept depth msg value
  have hreadable : Readable ref (plain lua) depth type value (limit - stack.length) ↔
      (Gb.fillLuaTable lua d (limit - stack.length) value).isSome :=
    readable_of_fields hdepth fun depth free hdepth => by
      rw [Option.isSome_map]
      exact readableFields_iff d hdeclares depth free value hdepth
  rw [← hreadable]
  constructor
  · rintro ⟨filled, t, h⟩
    exact (hkept.returned stack filled t h).1
  · exact hkept.returns stack

end Gb.LuaStack
