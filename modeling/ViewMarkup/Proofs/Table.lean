import Mathlib.Data.List.Induction
import Mathlib.Data.List.Nodup
import ViewMarkup.Table

/-!
# Tables without repeated keys

A table whose keys are distinct is the set of its entries: an entry is there exactly if its key has
its value.

## Main statements

* `Table.get?_eq_some_iff` — the value of a key is found in the entries.
* `Table.get?_filter` — what leaving entries out does to the value of a key.
* `Table.entries_foldl_insert`, `Table.get?_foldl_insert` — a table filled with one value after the
  other.
* `Table.foldl_modify_keys` — a table changed at one key after the other.
-/

namespace ViewMarkup.Table

variable {κ α : Type} {t : Table κ α}

/-- Leaving entries out keeps the keys distinct. -/
lemma nodup_keys_filter (hn : t.keys.Nodup) (f : κ × α → Bool) :
    (Table.mk (t.entries.filter f)).keys.Nodup :=
  hn.sublist (List.filter_sublist.map _)

variable [DecidableEq κ]

/-- The value of a key stands in an entry. -/
lemma mem_entries_of_get? {k : κ} {v : α} (h : t.get? k = some v) : (k, v) ∈ t.entries := by
  obtain ⟨e, he, rfl⟩ := Option.map_eq_some_iff.1 h
  have hk : e.1 = k := by simpa using List.find?_some he
  rw [← hk]
  exact List.mem_of_find?_eq_some he

/-- Where keys are distinct, an entry gives the value of its key. -/
lemma get?_of_mem_entries (hn : t.keys.Nodup) {k : κ} {v : α} (h : (k, v) ∈ t.entries) :
    t.get? k = some v := by
  obtain ⟨w, hw⟩ := mem_keys_iff.1 (List.mem_map.2 ⟨(k, v), h, rfl⟩)
  have := List.inj_on_of_nodup_map hn h (mem_entries_of_get? hw) rfl
  rw [hw, (Prod.mk.inj this).2]

/-- Where keys are distinct, the value of a key is the one that stands beside it. -/
theorem get?_eq_some_iff (hn : t.keys.Nodup) {k : κ} {v : α} :
    t.get? k = some v ↔ (k, v) ∈ t.entries :=
  ⟨mem_entries_of_get?, get?_of_mem_entries hn⟩

/-- A table with a value for each key of a list. -/
lemma get?_mk_map (f : κ → α) {ks : List κ} {k : κ} (h : k ∈ ks) :
    (Table.mk (ks.map fun k => (k, f k))).get? k = some (f k) := by
  induction ks with
  | nil => cases h
  | cons k' ks ih =>
    by_cases hk : k' = k
    · simp [get?, hk]
    · rw [← ih ((List.mem_cons.1 h).resolve_left (Ne.symm hk))]
      simp [get?, hk]

/-- A value is that of some key. -/
lemma mem_values_of_get? {k : κ} {v : α} (h : t.get? k = some v) : v ∈ t.values :=
  List.mem_map.2 ⟨(k, v), mem_entries_of_get? h, rfl⟩

/-- What leaving entries out does to the value of a key. -/
theorem get?_filter (hn : t.keys.Nodup) (f : κ × α → Bool) (k : κ) :
    (Table.mk (t.entries.filter f)).get? k = (t.get? k).filter fun v => f (k, v) := by
  refine Option.ext fun v => ?_
  rw [get?_eq_some_iff (nodup_keys_filter hn f), List.mem_filter, ← get?_eq_some_iff hn,
    Option.filter_eq_some_iff]

/-- A key that is new is put last. -/
lemma put_of_not_mem {k : κ} {v : α} {es : List (κ × α)} (h : k ∉ es.map (·.1)) :
    put k v es = es ++ [(k, v)] := by
  induction es with
  | nil => rfl
  | cons e es ih =>
    rw [List.map_cons, List.mem_cons, not_or] at h
    rw [put, if_neg (Ne.symm h.1), ih h.2, List.cons_append]

/-- Values inserted one after the other under different keys are the entries. -/
theorem entries_foldl_insert {β : Type} (key : β → κ) (value : β → α) (xs : List β)
    (hn : (t.keys ++ xs.map key).Nodup) :
    (xs.foldl (fun t x => t.insert (key x) (value x)) t).entries =
      t.entries ++ xs.map fun x => (key x, value x) := by
  induction xs generalizing t with
  | nil => rw [List.map_nil, List.append_nil, List.foldl_nil]
  | cons x xs ih =>
    rw [List.map_cons, ← List.singleton_append, ← List.append_assoc] at hn
    have hx : key x ∉ t.keys := fun hm =>
      (List.nodup_append.1 (List.nodup_append.1 hn).1).2.2 _ hm _ (List.mem_singleton_self _) rfl
    rw [List.foldl_cons, ih (by rw [keys_insert, if_neg hx]; exact hn), insert,
      put_of_not_mem hx, List.append_assoc, List.map_cons, List.singleton_append]

/-- A value that is there after an insertion is the inserted one or was there before. -/
lemma mem_values_insert {k : κ} {v w : α} (h : w ∈ (t.insert k v).values) :
    w = v ∨ w ∈ t.values := by
  obtain ⟨es⟩ := t
  change w ∈ (put k v es).map (·.2) at h
  change w = v ∨ w ∈ es.map (·.2)
  induction es with
  | nil => exact .inl (List.mem_singleton.1 h)
  | cons e es ih =>
    rw [put] at h
    split at h
    · exact (List.mem_cons.1 h).imp_right (List.mem_cons_of_mem _)
    · rcases List.mem_cons.1 h with h | h
      · exact .inr (List.mem_cons.2 (.inl h))
      · exact (ih h).imp_right (List.mem_cons_of_mem _)

/-- The values of a table that was filled are those that it was filled with and those before. -/
lemma mem_values_foldl_insert {β : Type} {key : β → κ} {value : β → α} {xs : List β} {w : α}
    (h : w ∈ (xs.foldl (fun t x => t.insert (key x) (value x)) t).values) :
    (∃ x ∈ xs, w = value x) ∨ w ∈ t.values := by
  induction xs generalizing t with
  | nil => exact .inr h
  | cons x xs ih =>
    rcases ih h with ⟨y, hy, hw⟩ | h
    · exact .inl ⟨y, List.mem_cons_of_mem _ hy, hw⟩
    · exact (mem_values_insert h).imp_left fun hw => ⟨x, List.mem_cons_self, hw⟩

omit [DecidableEq κ] in
/-- The values of a table that is changed throughout. -/
lemma values_map {β : Type} (f : α → β) (t : Table κ α) : (t.map f).values = t.values.map f := by
  rw [values, values, map, List.map_map, List.map_map]
  rfl

omit [DecidableEq κ] in
/-- Changes that agree on all values are the same. -/
lemma map_congr {β : Type} {f g : α → β} (h : ∀ v ∈ t.values, f v = g v) :
    t.map f = t.map g :=
  congrArg Table.mk (List.map_congr_left fun e he =>
    Prod.ext rfl (h e.2 (List.mem_map_of_mem he)))

omit [DecidableEq κ] in
/-- Changing a table twice throughout is changing it once. -/
lemma map_map {β γ : Type} (f : α → β) (g : β → γ) (t : Table κ α) :
    (t.map f).map g = t.map (g ∘ f) :=
  congrArg Table.mk (List.map_map ..)

omit [DecidableEq κ] in
/-- A change that changes nothing. -/
lemma map_id (t : Table κ α) : t.map id = t :=
  congrArg Table.mk (List.map_id t.entries)

/-- The value of a key that is inserted, if the keys determine their values. -/
theorem get?_foldl_insert {β : Type} (key : β → κ) (value : κ → α) (xs : List β) {k : κ}
    (h : k ∈ xs.map key ∨ t.get? k = some (value k)) :
    (xs.foldl (fun t x => t.insert (key x) (value (key x))) t).get? k = some (value k) := by
  induction xs generalizing t with
  | nil => exact h.resolve_left List.not_mem_nil
  | cons x xs ih =>
    rw [List.foldl_cons]
    refine ih ?_
    rw [List.map_cons, List.mem_cons] at h
    rw [get?_insert]
    by_cases hk : key x = k
    · exact .inr (by rw [if_pos hk, hk])
    · rw [if_neg hk]
      exact h.imp_left fun h => h.resolve_left (Ne.symm hk)

/-- A value that is there after values were inserted is one of them, or it was there before. -/
lemma exists_of_get?_foldl_insert {β : Type} {key : β → κ} {value : β → α} {xs : List β} {k : κ}
    {v : α} (hv : (xs.foldl (fun t x => t.insert (key x) (value x)) t).get? k = some v) :
    (∃ x ∈ xs, key x = k ∧ value x = v) ∨ t.get? k = some v := by
  induction xs generalizing t with
  | nil => exact .inr hv
  | cons x xs ih =>
    obtain ⟨y, hy, h⟩ | h := ih hv
    · exact .inl ⟨y, List.mem_cons_of_mem _ hy, h⟩
    · rw [get?_insert] at h
      split at h
      · next hk => exact .inl ⟨x, List.mem_cons_self, hk, Option.some.inj h⟩
      · exact .inr h

/-- Of the values inserted under a key the last one is there. -/
lemma get?_foldl_insert_eq (t : Table κ α) (xs : List (κ × α)) (k : κ) :
    (xs.foldl (fun t x => t.insert x.1 x.2) t).get? k =
      ((xs.filter (·.1 = k)).getLast?.map (·.2)).or (t.get? k) := by
  induction xs using List.reverseRecOn with
  | nil => rfl
  | append_singleton xs x ih =>
    rw [List.foldl_append, List.foldl_cons, List.foldl_nil, get?_insert, List.filter_append]
    split
    · next hx => rw [List.filter_cons_of_pos (by simpa using hx)]; simp
    · next hx => rw [List.filter_cons_of_neg (by simpa using hx)]; simpa using ih

/-- A value that is put and then changed is put changed. -/
lemma map_put {β : Type} (f : α → β) (k : κ) (v : α) (es : List (κ × α)) :
    (put k v es).map (fun (k, v) => (k, f v)) = put k (f v) (es.map fun (k, v) => (k, f v)) := by
  induction es with
  | nil => rfl
  | cons e es ih => by_cases he : e.1 = k <;> simp [put, he, ih]

/-- A value may be changed before or after it is inserted. -/
lemma map_insert {β : Type} (f : α → β) (t : Table κ α) (k : κ) (v : α) :
    (t.insert k v).map f = (t.map f).insert k (f v) :=
  congrArg Table.mk (map_put f k v t.entries)

/-- A table that is filled and then changed is filled with changed values. -/
lemma map_foldl_insert {β γ : Type} (f : α → β) (key : γ → κ) (value : γ → α) (xs : List γ) :
    (xs.foldl (fun t x => t.insert (key x) (value x)) t).map f =
      xs.foldl (fun t x => t.insert (key x) (f (value x))) (t.map f) := by
  induction xs generalizing t with
  | nil => rfl
  | cons x xs ih => rw [List.foldl_cons, List.foldl_cons, ih, map_insert]

/-- Changing the values of distinct keys one after the other changes each once. -/
lemma foldl_modify (f : α → α) {ks : List κ} (hn : ks.Nodup) (t : Table κ α) :
    ks.foldl (fun t k => t.modify k f) t =
      ⟨t.entries.map fun e => if e.1 ∈ ks then (e.1, f e.2) else e⟩ := by
  induction ks generalizing t with
  | nil => simp
  | cons k ks ih =>
    obtain ⟨hk, hn⟩ := List.nodup_cons.1 hn
    rw [List.foldl_cons, ih hn, modify, List.map_map]
    refine congrArg Table.mk (List.map_congr_left fun e _ => ?_)
    rw [Function.comp_apply]
    by_cases he : e.1 = k
    · simp [he, hk]
    · simp [he]

/-- Changing the value of each key changes all values. -/
theorem foldl_modify_keys (hn : t.keys.Nodup) (f : α → α) :
    t.keys.foldl (fun t k => t.modify k f) t = t.map f := by
  rw [foldl_modify f hn, map]
  refine congrArg Table.mk (List.map_congr_left fun e he => ?_)
  exact if_pos (List.mem_map.2 ⟨e, he, rfl⟩)

/-- Where keys are distinct, the values are those of the keys. -/
lemma flatMap_keys {β : Type} (hn : t.keys.Nodup) (f : Option α → List β) :
    (t.keys.flatMap fun k => f (t.get? k)) = t.values.flatMap fun v => f (some v) := by
  rw [keys, values, List.flatMap_map, List.flatMap_map]
  exact List.flatMap_congr fun e he => by rw [get?_of_mem_entries hn (show (e.1, e.2) ∈ _ from he)]

end ViewMarkup.Table
