import Mathlib.Data.List.Basic
import Mathlib.Logic.Function.Basic

/-!
# Content-addressed memos

A memo files the value of an input under the input's digest. When it is sound, reading it gives
what evaluating the input gives.
-/

namespace Memo

universe u v w

variable {α : Type u} {κ : Type v} {β : Type w} {digest : α → κ} {f : α → β}

/-- Every entry is the value of each input with its digest. -/
def Sound (digest : α → κ) (f : α → β) (memo : List (κ × β)) : Prop :=
    ∀ entry ∈ memo, ∀ a, digest a = entry.1 → entry.2 = f a

theorem sound_nil : Sound digest f [] := by
  intro entry entry_mem
  cases entry_mem

/-- Without collisions, inputs filed with their values are a sound memo. -/
theorem sound_zip_map (injective : Function.Injective digest) (inputs : List α) :
    Sound digest f ((inputs.map digest).zip (inputs.map f)) := by
  induction inputs with
  | nil => exact sound_nil
  | cons input rest ih =>
      intro entry entry_mem a same
      simp only [List.map_cons, List.zip_cons_cons, List.mem_cons] at entry_mem
      rcases entry_mem with rfl | entry_mem
      · rw [injective same]
      · exact ih entry entry_mem a same

section Lookup

variable [BEq κ] [LawfulBEq κ] {memo : List (κ × β)} {k : κ}

theorem isSome_lookup_iff : (memo.lookup k).isSome ↔ k ∈ memo.map Prod.fst := by
  rw [List.lookup_isSome_iff, List.mem_map]
  constructor
  · rintro ⟨entry, entry_mem, same⟩
    exact ⟨entry, entry_mem, (eq_of_beq same).symm⟩
  · rintro ⟨entry, entry_mem, rfl⟩
    exact ⟨entry, entry_mem, beq_self_eq_true _⟩

theorem lookup_eq_none_iff : memo.lookup k = none ↔ k ∉ memo.map Prod.fst := by
  rw [← isSome_lookup_iff, Bool.not_eq_true, Option.isSome_eq_false_iff, Option.isNone_iff_eq_none]

theorem mem_of_lookup {b : β} (found : memo.lookup k = some b) : (k, b) ∈ memo := by
  rcases List.lookup_eq_some_iff.1 found with ⟨before, after, split, -⟩
  simp [split]

theorem Sound.lookup (sound : Sound digest f memo) {a : α} {b : β}
    (found : memo.lookup (digest a) = some b) : b = f a :=
  sound _ (mem_of_lookup found) a rfl

/-- Reading a value through the position of its key is reading it beside its key. -/
theorem lookup_zipIdx_bind (keys : List κ) (values : List β) (n : Nat) :
    ((keys.zipIdx n).lookup k).bind (fun i => values[i - n]?) = (keys.zip values).lookup k := by
  induction keys generalizing values n with
  | nil => rfl
  | cons key rest ih =>
      rw [List.zipIdx_cons, List.lookup_cons]
      cases values with
      | nil => simp
      | cons value values =>
          rw [List.zip_cons_cons, List.lookup_cons]
          cases same : k == key with
          | true => simp
          | false =>
              rw [← ih values (n + 1)]
              apply Option.bind_congr
              intro i found
              have later : n + 1 ≤ i := List.le_snd_of_mem_zipIdx (mem_of_lookup found)
              rw [show i - n = i - (n + 1) + 1 by omega, List.getElem?_cons_succ]

end Lookup

end Memo
