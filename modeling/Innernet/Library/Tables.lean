import Mathlib.Data.List.AList

/-! Tables with unique keys, as association lists. Mathlib's `AList` supplies lookup and
upsert; the bulk operations of a small database (update every row, delete where, count where)
are added here, each with the lookup it leaves behind. -/
namespace Tables

universe u v w

/-- A finite table: at most one row a key. -/
abbrev Table (κ : Type u) (ν : Type v) := AList (fun _ : κ => ν)

variable {κ : Type u} {ν : Type v}

def mapRows (f : κ → ν → ν) (t : Table κ ν) : Table κ ν where
  entries := t.entries.map fun e => ⟨e.1, f e.1 e.2⟩
  nodupKeys := List.nodupKeys_iff_pairwise.mpr
    (by simpa [List.pairwise_map] using List.nodupKeys_iff_pairwise.mp t.nodupKeys)

def keep (p : κ → ν → Bool) (t : Table κ ν) : Table κ ν where
  entries := t.entries.filter fun e => p e.1 e.2
  nodupKeys := t.nodupKeys.sublist List.filter_sublist

/-- `SELECT EXISTS(... WHERE p)`. -/
def any (p : κ → ν → Bool) (t : Table κ ν) : Bool := t.entries.any fun e => p e.1 e.2

/-- `SELECT count(*) ... WHERE p`. -/
def count (p : κ → ν → Bool) (t : Table κ ν) : Nat := t.entries.countP fun e => p e.1 e.2

/-- The keys a `SELECT` of the key columns returns. -/
def keysWhere (p : κ → ν → Bool) (t : Table κ ν) : List κ :=
  (t.entries.filter fun e => p e.1 e.2).map Sigma.fst

theorem keysWhere_nodup (p : κ → ν → Bool) (t : Table κ ν) : (keysWhere p t).Nodup :=
  (keep p t).keys_nodup

theorem keep_self (p : κ → ν → Bool) (t : Table κ ν) (all : ∀ e ∈ t.entries, p e.1 e.2 = true) :
    keep p t = t := AList.ext (List.filter_eq_self.mpr all)

theorem count_zero (p : κ → ν → Bool) (t : Table κ ν) :
    count p t = 0 ↔ ∀ e ∈ t.entries, p e.1 e.2 = false := by
  rw [count, List.countP_eq_zero]
  simp

section Lookup

variable [DecidableEq κ]

theorem mem_entries_iff (t : Table κ ν) (e : Sigma fun _ : κ => ν) :
    e ∈ t.entries ↔ t.lookup e.1 = some e.2 :=
  (List.mem_dlookup_iff t.nodupKeys).symm

@[simp] theorem lookup_mapRows (f : κ → ν → ν) (t : Table κ ν) (k : κ) :
    (mapRows f t).lookup k = (t.lookup k).map (f k) :=
  List.dlookup_map₂ (f := f) k

theorem lookup_keep (p : κ → ν → Bool) (t : Table κ ν) (k : κ) :
    (keep p t).lookup k = (t.lookup k).filter (p k) := by
  apply Option.ext
  intro v
  rw [← Option.mem_def, AList.mem_lookup_iff, ← Option.mem_def, Option.mem_filter_iff,
    AList.mem_lookup_iff]
  simp [keep]

theorem any_iff (p : κ → ν → Bool) (t : Table κ ν) :
    any p t = true ↔ ∃ k v, t.lookup k = some v ∧ p k v = true := by
  simp only [any, List.any_eq_true]
  constructor
  · rintro ⟨⟨k, v⟩, member, holds⟩
    exact ⟨k, v, (mem_entries_iff t _).mp member, holds⟩
  · rintro ⟨k, v, found, holds⟩
    exact ⟨⟨k, v⟩, (mem_entries_iff t _).mpr found, holds⟩

theorem any_eq_false (p : κ → ν → Bool) (t : Table κ ν) :
    any p t = false ↔ ∀ k v, t.lookup k = some v → p k v = false := by
  rw [← Bool.not_eq_true, any_iff]
  simp

theorem mem_keysWhere (p : κ → ν → Bool) (t : Table κ ν) (k : κ) :
    k ∈ keysWhere p t ↔ ∃ v, t.lookup k = some v ∧ p k v = true := by
  simp only [keysWhere, List.mem_map, List.mem_filter]
  constructor
  · rintro ⟨⟨k', v⟩, ⟨member, holds⟩, rfl⟩
    exact ⟨v, (mem_entries_iff t _).mp member, holds⟩
  · rintro ⟨v, found, holds⟩
    exact ⟨⟨k, v⟩, ⟨(mem_entries_iff t _).mpr found, holds⟩, rfl⟩

theorem lookup_insert_eq (t : Table κ ν) (k k' : κ) (v : ν) :
    (t.insert k v).lookup k' = if k' = k then some v else t.lookup k' := by
  split
  · rename_i same
    subst same
    exact AList.lookup_insert t
  · rename_i other
    exact AList.lookup_insert_ne other

/-- A row more, unless the key has one already. -/
theorem length_insert (t : Table κ ν) (k : κ) (v : ν) :
    (t.insert k v).entries.length = t.entries.length + if (t.lookup k).isSome then 0 else 1 := by
  have keys : ∀ t : Table κ ν, t.entries.length = t.keys.length := fun t => by
    rw [AList.keys, List.keys, List.length_map]
  rw [keys, keys, AList.keys_insert, List.length_cons]
  split
  · rename_i found
    have member : k ∈ t.keys := AList.mem_keys.mp (AList.lookup_isSome.mp found)
    have nonempty := List.length_pos_of_mem member
    rw [List.length_erase_of_mem member]
    omega
  · rename_i unfound
    have absent : k ∉ t.keys := fun member =>
      unfound (AList.lookup_isSome.mpr (AList.mem_keys.mpr member))
    rw [List.erase_of_not_mem absent]

end Lookup

section Fold

variable {σ : Type w} {ε : Type*}

/-- A loop over distinct keys whose body touches only the row of its own key takes each row
visited from what it was at the start by one round, and leaves every other row alone. The relation
`frame` is what all rounds preserve besides the rows. -/
theorem foldlM_rows (row : σ → κ → Option ν) (frame : σ → σ → Prop)
    (refl : ∀ s, frame s s) (trans : ∀ s t u, frame s t → frame t u → frame s u)
    (body : σ → κ → Except ε σ) (round : κ → Option ν → Option ν → Prop) (s₀ : σ)
    (body_ok : ∀ s t k, frame s₀ s → body s k = .ok t → frame s t ∧
      round k (row s k) (row t k) ∧ ∀ k', k' ≠ k → row t k' = row s k')
    (keys : List κ) (distinct : keys.Nodup) :
    ∀ s t, frame s₀ s → keys.foldlM body s = .ok t → frame s t ∧
      ∀ k, (k ∈ keys → round k (row s k) (row t k)) ∧ (k ∉ keys → row t k = row s k) := by
  induction keys with
  | nil =>
    intro s t _ done
    cases done
    exact ⟨refl s, fun k => by simp⟩
  | cons a keys ih =>
    intro s t framed done
    rw [List.foldlM_cons] at done
    cases head : body s a with
    | error e => rw [head] at done; cases done
    | ok m =>
      rw [head] at done
      have first := body_ok s m a framed head
      have rest := ih distinct.of_cons m t (trans _ _ _ framed first.1) done
      have fresh : a ∉ keys := (List.nodup_cons.mp distinct).1
      refine ⟨trans _ _ _ first.1 rest.1, fun k => ⟨fun member => ?_, fun absent => ?_⟩⟩
      · rcases List.mem_cons.mp member with rfl | later
        · rw [(rest.2 k).2 fresh]
          exact first.2.1
        · have other : k ≠ a := fun same => fresh (same ▸ later)
          rw [← first.2.2 k other]
          exact (rest.2 k).1 later
      · rw [List.mem_cons, not_or] at absent
        rw [(rest.2 k).2 absent.2, first.2.2 k absent.1]

/-- The same loop succeeds when its body does in every state the loop can be in. -/
theorem foldlM_succeeds (row : σ → κ → Option ν) (frame : σ → σ → Prop)
    (refl : ∀ s, frame s s) (trans : ∀ s t u, frame s t → frame t u → frame s u)
    (body : σ → κ → Except ε σ) (s₀ : σ) (keys : List κ) (distinct : keys.Nodup)
    (round : ∀ s k, frame s₀ s → k ∈ keys → row s k = row s₀ k → ∃ t, body s k = .ok t ∧
      frame s t ∧ ∀ k', k' ≠ k → row t k' = row s k') :
    ∃ t, keys.foldlM body s₀ = .ok t := by
  suffices general : ∀ (rest : List κ), rest.Nodup → (∀ k ∈ rest, k ∈ keys) → ∀ s, frame s₀ s →
      (∀ k ∈ rest, row s k = row s₀ k) → ∃ t, rest.foldlM body s = .ok t from
    general keys distinct (fun _ member => member) s₀ (refl s₀) (fun _ _ => rfl)
  intro rest
  induction rest with
  | nil => exact fun _ _ s _ _ => ⟨s, rfl⟩
  | cons a rest ih =>
    intro nodup within s framed untouched
    obtain ⟨m, head, next, others⟩ := round s a framed (within a (by simp)) (untouched a (by simp))
    have fresh : a ∉ rest := (List.nodup_cons.mp nodup).1
    obtain ⟨t, tail⟩ := ih nodup.of_cons (fun k member => within k (by simp [member])) m
      (trans _ _ _ framed next) (fun k member => by
        have other : k ≠ a := fun same => fresh (same ▸ member)
        rw [others k other, untouched k (by simp [member])])
    exact ⟨t, by rw [List.foldlM_cons, head]; exact tail⟩

end Fold

end Tables
