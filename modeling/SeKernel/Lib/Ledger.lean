import Mathlib.Data.List.Nodup
import Mathlib.Logic.Function.Basic

/-!
# Records that are entered under names

Records come to live at the places of a heap and cease to, and places are used again. Each has a
part that never changes, its key, and is entered with it in a ledger when it comes (`Entered`). When
no two entries have the same name, a record that is found at two times under one name is one record:
it has been at one place, with one key, all the time between (`Entered.same_record`).
-/

namespace Ledger

variable {α β ι ν : Type*}

/-- What lives in `heap'` has lived in `heap`, with the same key, or has been entered since. -/
def Entered (key : α → β) (heap : ι → Option α) (entries : List (ι × β)) (heap' : ι → Option α) :
    Prop :=
  ∀ i a', heap' i = some a' → (∃ a, heap i = some a ∧ key a = key a') ∨ (i, key a') ∈ entries

variable {key : α → β} {heap heap' heap₀ heap₁ heap₂ heap₃ : ι → Option α}
  {entries entries' entries₁ entries₂ entries₃ : List (ι × β)} {i j : ι} {a b : α}

theorem Entered.refl (key : α → β) (heap : ι → Option α) : Entered key heap [] heap :=
  fun _ a' ha' => .inl ⟨a', ha', rfl⟩

theorem Entered.trans (h : Entered key heap₁ entries heap₂)
    (h' : Entered key heap₂ entries' heap₃) : Entered key heap₁ (entries ++ entries') heap₃ := by
  intro i a' ha'
  rcases h' i a' ha' with ⟨a, ha, hkey⟩ | hin
  · rw [← hkey]
    exact (h i a ha).imp_right fun hin => List.mem_append_left _ hin
  · exact .inr (List.mem_append_right _ hin)

/-- A record that comes to live is entered. -/
theorem Entered.of_update [DecidableEq ι] (key : α → β) (heap : ι → Option α) (i : ι) (a : α) :
    Entered key heap [(i, key a)] (Function.update heap i (some a)) := by
  intro j a' ha'
  by_cases hj : j = i
  · subst hj
    rw [Function.update_self] at ha'
    cases ha'
    exact .inr (List.mem_singleton.2 rfl)
  · rw [Function.update_of_ne hj] at ha'
    exact .inl ⟨a', ha', rfl⟩

/-- A record that changes, but for its key, needs no entry. -/
theorem Entered.of_write [DecidableEq ι] (ha : heap i = some a) (hkey : key b = key a) :
    Entered key heap [] (Function.update heap i (some b)) := by
  intro j a' ha'
  by_cases hj : j = i
  · subst hj
    rw [Function.update_self] at ha'
    cases ha'
    exact .inl ⟨a, ha, hkey.symm⟩
  · rw [Function.update_of_ne hj] at ha'
    exact .inl ⟨a', ha', rfl⟩

/-- Nor does one that ceases to live. -/
theorem Entered.of_free [DecidableEq ι] (key : α → β) (heap : ι → Option α) (i : ι) :
    Entered key heap [] (Function.update heap i none) := by
  intro j a' ha'
  by_cases hj : j = i
  · subst hj
    rw [Function.update_self] at ha'
    cases ha'
  · rw [Function.update_of_ne hj] at ha'
    exact .inl ⟨a', ha', rfl⟩

/-- Only some places are looked at. -/
theorem Entered.comp {κ : Type*} (h : Entered key heap [] heap') (place : κ → ι) :
    Entered key (heap ∘ place) [] (heap' ∘ place) :=
  fun i a' ha' => .inl ((h (place i) a' ha').resolve_right List.not_mem_nil)

/-- From an empty heap on, every record has been entered. -/
theorem Entered.mem (h : Entered key heap entries heap') (hnone : ∀ i, heap i = none)
    (ha : heap' i = some a) : (i, key a) ∈ entries := by
  refine (h i a ha).resolve_left ?_
  rintro ⟨a₀, ha₀, -⟩
  rw [hnone] at ha₀
  cases ha₀

/-- A name stands for one record at all times: one that is found before and after has been there in
between. -/
theorem Entered.same_record (h₁ : Entered key heap₀ entries₁ heap₁)
    (h₂ : Entered key heap₁ entries₂ heap₂) (h₃ : Entered key heap₂ entries₃ heap₃) (name : β → ν)
    (hnone : ∀ i, heap₀ i = none)
    (hnames : ((entries₁ ++ entries₂ ++ entries₃).map fun e => name e.2).Nodup)
    (ha : heap₁ i = some a) (hb : heap₃ j = some b) (hname : name (key a) = name (key b)) :
    i = j ∧ key a = key b ∧ ∃ c, heap₂ i = some c ∧ key c = key a := by
  have hunique := List.inj_on_of_nodup_map hnames
  have hfirst := h₁.mem hnone ha
  have hlate : (j, key b) ∉ entries₂ ++ entries₃ := by
    intro hin
    rw [List.append_assoc, List.map_append] at hnames
    exact List.disjoint_of_nodup_append hnames (List.mem_map_of_mem hfirst)
      (hname ▸ List.mem_map_of_mem (f := fun e => name e.2) hin)
  obtain ⟨c, hc, hkc⟩ := (h₃ j b hb).resolve_right fun hin => hlate (List.mem_append_right _ hin)
  obtain ⟨d, hd, hkd⟩ := (h₂ j c hc).resolve_right fun hin =>
    hlate (List.mem_append_left _ (hkc ▸ hin))
  have hsecond : (j, key b) ∈ entries₁ := hkc ▸ hkd ▸ h₁.mem hnone hd
  have hsame : (i, key a) = (j, key b) :=
    hunique (by simp [hfirst]) (by simp [hsecond]) hname
  obtain ⟨rfl, hkey⟩ := Prod.mk.inj hsame
  exact ⟨rfl, hkey, c, hc, hkc.trans hkey.symm⟩

end Ledger
