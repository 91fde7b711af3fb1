import Mathlib.Data.List.Basic
import Mathlib.Tactic

/-!
# Chunked vectors

A vector that is kept in chunks of one length: place `i` is place `i % n` of chunk `i / n`. Reads and writes at different
places do not interfere, whether they are in the same chunk or not, and another chunk at the end changes nothing
before it.
-/

namespace Chunks

variable {α : Type*}

/-- The value at a place. -/
def get? (n : ℕ) (content : List (List α)) (i : ℕ) : Option α :=
  match content[i / n]? with
  | some chunk => chunk[i % n]?
  | none => none

/-- A value put at a place. -/
def set (n : ℕ) (content : List (List α)) (i : ℕ) (a : α) : List (List α) :=
  content.modify (i / n) (·.set (i % n) a)

/-- All chunks have the same length. -/
def Uniform (n : ℕ) (content : List (List α)) : Prop :=
  ∀ chunk ∈ content, chunk.length = n

variable {n : ℕ} {content : List (List α)}

/-- The places are those of the chunks. -/
theorem exists_get? (hn : 0 < n) (h : Uniform n content) {i : ℕ} (hi : i < n * content.length) :
    ∃ chunk a, content[i / n]? = some chunk ∧ chunk[i % n]? = some a ∧ chunk.length = n := by
  have hchunk : i / n < content.length := Nat.div_lt_of_lt_mul hi
  have hlen : content[i / n].length = n := h _ (List.getElem_mem hchunk)
  have hplace : i % n < content[i / n].length := by
    rw [hlen]
    exact Nat.mod_lt i hn
  exact ⟨content[i / n], content[i / n][i % n], List.getElem?_eq_getElem hchunk, List.getElem?_eq_getElem hplace, hlen⟩

theorem uniform_set (h : Uniform n content) (i : ℕ) (a : α) : Uniform n (set n content i a) := by
  intro chunk hchunk
  obtain ⟨j, hj⟩ := List.mem_iff_getElem?.1 hchunk
  unfold set at hj
  rw [List.getElem?_modify] at hj
  obtain ⟨old, hold, rfl⟩ := Option.map_eq_some_iff.1 hj
  have hlen := h old (List.mem_of_getElem? hold)
  by_cases hij : i / n = j
  · rw [if_pos hij, List.length_set, hlen]
  · rw [if_neg hij]
    exact hlen

@[simp] theorem length_set (i : ℕ) (a : α) : (set n content i a).length = content.length := List.length_modify _ _ _

theorem get?_set_self (hn : 0 < n) (h : Uniform n content) {i : ℕ} (hi : i < n * content.length) (a : α) :
    get? n (set n content i a) i = some a := by
  obtain ⟨chunk, b, hchunk, -, hlen⟩ := exists_get? hn h hi
  have hplace : i % n < chunk.length := by
    rw [hlen]
    exact Nat.mod_lt i hn
  unfold get? set
  rw [List.getElem?_modify_eq, hchunk]
  exact List.getElem?_set_self hplace

theorem get?_set_of_ne {i j : ℕ} (hij : i ≠ j) (a : α) : get? n (set n content i a) j = get? n content j := by
  unfold get? set
  rw [List.getElem?_modify]
  rcases hchunk : content[j / n]? with _ | chunk
  · rfl
  · by_cases hsame : i / n = j / n
    -- in one chunk the places differ
    · have hplace : i % n ≠ j % n := fun h ↦ hij (by rw [← Nat.div_add_mod i n, ← Nat.div_add_mod j n, hsame, h])
      simp only [if_pos hsame, Option.map_eq_map, Option.map_some]
      exact List.getElem?_set_ne hplace
    · simp only [if_neg hsame, Option.map_eq_map, Option.map_some]

theorem uniform_append (h : Uniform n content) (a : α) : Uniform n (content ++ [List.replicate n a]) := by
  intro chunk hchunk
  rcases List.mem_append.1 hchunk with hchunk | hchunk
  · exact h chunk hchunk
  · rw [List.mem_singleton.1 hchunk, List.length_replicate]

theorem get?_append {i : ℕ} (hi : i < n * content.length) (more : List (List α)) :
    get? n (content ++ more) i = get? n content i := by
  unfold get?
  rw [List.getElem?_append_left (Nat.div_lt_of_lt_mul hi)]

end Chunks
