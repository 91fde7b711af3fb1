import Playchain.Schema.TableObject

/-!
# Seats

`occupiedPlaces` counts the players with a reservation, with cash at the table or with cash in the
game. It is kept up to date by six methods of the table, each of which looks at the other two maps to
see whether a player takes or leaves a seat; `SeatsOk` says that the counter is exact, **as a 32-bit
counter**, and each method keeps it for every player and every amount.

Only the three sets of players matter: a method changes one of them (`SeatChange.Applies`) and the
counter follows (`SeatChange.Applies.counts`).
-/

namespace Playchain

/-! ### A counter for a set -/

/-- The 32-bit counter shows the size of the set. -/
def Counts (n : ℕ) (s : Finset PlayerId) : Prop := n = s.card % 2 ^ 32

instance (n : ℕ) (s : Finset PlayerId) : Decidable (Counts n s) :=
  inferInstanceAs (Decidable (n = _))

variable {n : ℕ} {s : Finset PlayerId} {p : PlayerId}

theorem Counts.insert (h : Counts n s) (hp : p ∉ s) : Counts (incUInt32 n) (insert p s) := by
  rw [Counts, Finset.card_insert_of_notMem hp, incUInt32, h]
  omega

/-- Striking off a member does not underflow: there is at least one. -/
theorem Counts.erase (h : Counts n s) (hp : p ∈ s) : Counts (decUInt32 n) (s.erase p) := by
  have hpos : 0 < s.card := Finset.card_pos.2 ⟨p, hp⟩
  rw [Counts, Finset.card_erase_of_mem hp, decUInt32, h]
  omega

/-! ### A change of one of the sets -/

/-- What a change of seat does to the players of the map it happens in. -/
def SeatChange.Applies (seat : SeatChange) (p : PlayerId) (a a' : Finset PlayerId) : Prop :=
  match seat with
  | opened => p ∉ a ∧ a' = insert p a
  | closed => p ∈ a ∧ a' = a.erase p
  | unchanged => a' = a

/-- **The counter follows a change of one map**, when the player's other seats `b` are looked up. -/
theorem SeatChange.Applies.counts {s : SeatChange} {a a' b : Finset PlayerId}
    (h : s.Applies p a a') (hn : Counts n (a ∪ b)) {seated : Bool}
    (hseated : seated = true ↔ p ∈ b) : Counts (s.count seated n) (a' ∪ b) := by
  cases s with
  | opened =>
    obtain ⟨hp, rfl⟩ := h
    rw [Finset.insert_union]
    by_cases hb : p ∈ b
    · rw [Finset.insert_eq_of_mem (Finset.mem_union_right a hb), SeatChange.count,
        if_pos (hseated.2 hb)]
      exact hn
    · rw [SeatChange.count, if_neg fun hs ↦ hb (hseated.1 hs)]
      exact hn.insert fun hmem ↦ (Finset.mem_union.1 hmem).elim hp hb
  | closed =>
    obtain ⟨hp, rfl⟩ := h
    by_cases hb : p ∈ b
    · rw [SeatChange.count, if_pos (hseated.2 hb)]
      have hsame : a.erase p ∪ b = a ∪ b := by
        ext q
        by_cases hq : q = p
        · simp [hq, hb]
        · simp [hq]
      rwa [hsame]
    · rw [SeatChange.count, if_neg fun hs ↦ hb (hseated.1 hs)]
      have hsame : a.erase p ∪ b = (a ∪ b).erase p := by
        rw [Finset.erase_union_distrib, Finset.erase_eq_of_notMem hb]
      rw [hsame]
      exact hn.erase (Finset.mem_union_left b hp)
  | unchanged =>
    obtain rfl := h
    exact hn

/-- Closing the seats of one map one after the other. -/
theorem Counts.foldl_closed {b : Finset PlayerId} {seated : PlayerId → Bool}
    (hseated : ∀ q, seated q = true ↔ q ∈ b) {l : List (PlayerId × Asset)}
    (hnd : (l.map Prod.fst).Nodup) (h : Counts n ((l.map Prod.fst).toFinset ∪ b)) :
    Counts (l.foldl (fun places q ↦ SeatChange.closed.count (seated q.1) places) n) b := by
  induction l generalizing n with
  | nil => simpa using h
  | cons q l ih =>
    rw [List.map_cons, List.nodup_cons] at hnd
    refine ih hnd.2 ?_
    have hclosed : SeatChange.closed.Applies q.1 (((q :: l).map Prod.fst).toFinset)
        ((l.map Prod.fst).toFinset) := by
      refine ⟨by simp, ?_⟩
      rw [List.map_cons, List.toFinset_cons, Finset.erase_insert]
      rw [List.mem_toFinset]
      exact hnd.1
    exact hclosed.counts h (hseated q.1)

/-- An adjustment changes the players of its map as it reports. -/
theorem adjustEntry_applies {m : FlatMap PlayerId Asset} {delta : Asset} {r : Adjusted}
    (h : adjustEntry m p delta = .ok r) : r.seat.Applies p m.keys r.cash.keys := by
  rw [adjustEntry] at h
  split at h
  case h_1 hp =>
    have hp' : p ∉ m.keys := fun hmem ↦ by
      obtain ⟨v, hv⟩ := FlatMap.mem_keys.1 hmem
      rw [hp] at hv
      cases hv
    split_ifs at h
    · rcases hadd : Asset.add {} delta with e | v
      · rw [hadd] at h
        cases h
      · rw [hadd] at h
        cases h
        exact ⟨hp', m.keys_insert p v⟩
    · cases h
      exact rfl
  case h_2 old hp =>
    have hp' : p ∈ m.keys := FlatMap.mem_keys.2 ⟨old, hp⟩
    rcases hadd : old.add delta with e | v
    · rw [hadd] at h
      cases h
    · rw [hadd] at h
      change (if v.amount < 1 then _ else _) = _ at h
      split_ifs at h
      · cases h
        exact ⟨hp', m.keys_erase p⟩
      · cases h
        exact (m.keys_insert p v).trans (Finset.insert_eq_of_mem hp')

/-! ### The counter of a table -/

namespace TableObject

variable {t t' : TableObject}

/-- The players with a seat at the table. -/
def seated (t : TableObject) : Finset PlayerId :=
  t.pendingProposals.keys ∪ t.cash.keys ∪ t.playingCash.keys

/-- **The seat counter is exact.** -/
def SeatsOk (t : TableObject) : Prop := Counts t.occupiedPlaces t.seated

instance (t : TableObject) : Decidable t.SeatsOk := inferInstanceAs (Decidable (Counts _ _))

theorem seated_eq_cash (t : TableObject) :
    t.seated = t.cash.keys ∪ (t.playingCash.keys ∪ t.pendingProposals.keys) := by
  rw [seated]
  ac_rfl

theorem seated_eq_playingCash (t : TableObject) :
    t.seated = t.playingCash.keys ∪ (t.cash.keys ∪ t.pendingProposals.keys) := by
  rw [seated]
  ac_rfl

theorem seated_eq_proposals (t : TableObject) :
    t.seated = t.pendingProposals.keys ∪ (t.cash.keys ∪ t.playingCash.keys) := by
  rw [seated]
  ac_rfl

/-- Looking a player up in two maps. -/
theorem contains_or_contains {α β : Type} {m : FlatMap PlayerId α} {m' : FlatMap PlayerId β} :
    (m.contains p || m'.contains p) = true ↔ p ∈ m.keys ∪ m'.keys := by
  rw [Bool.or_eq_true, Finset.mem_union, FlatMap.contains_iff, FlatMap.contains_iff]

theorem SeatsOk.adjustCash (h : t.SeatsOk) {delta : Asset} (ha : t.adjustCash p delta = .ok t') :
    t'.SeatsOk := by
  rw [TableObject.adjustCash] at ha
  rcases hr : adjustEntry t.cash p delta with e | r
  · rw [hr] at ha
    cases ha
  · rw [hr] at ha
    cases ha
    rw [SeatsOk, seated_eq_cash] at h ⊢
    exact (adjustEntry_applies hr).counts h contains_or_contains

theorem SeatsOk.adjustPlayingCash (h : t.SeatsOk) {delta : Asset}
    (ha : t.adjustPlayingCash p delta = .ok t') : t'.SeatsOk := by
  rw [TableObject.adjustPlayingCash] at ha
  rcases hr : adjustEntry t.playingCash p delta with e | r
  · rw [hr] at ha
    cases ha
  · rw [hr] at ha
    cases ha
    rw [SeatsOk, seated_eq_playingCash] at h ⊢
    exact (adjustEntry_applies hr).counts h contains_or_contains

theorem SeatsOk.clearCash (h : t.SeatsOk) : t.clearCash.SeatsOk := by
  rw [SeatsOk, seated_eq_cash] at h ⊢
  have hkeys : t.clearCash.cash.keys = ∅ := rfl
  rw [hkeys, Finset.empty_union]
  exact Counts.foldl_closed (fun _ ↦ contains_or_contains) t.cash.nodup_fst h

theorem SeatsOk.clearPlayingCash (h : t.SeatsOk) : t.clearPlayingCash.SeatsOk := by
  rw [SeatsOk, seated_eq_playingCash] at h ⊢
  have hkeys : t.clearPlayingCash.playingCash.keys = ∅ := rfl
  rw [hkeys, Finset.empty_union]
  exact Counts.foldl_closed (fun _ ↦ contains_or_contains) t.playingCash.nodup_fst h

theorem SeatsOk.addPendingProposal (h : t.SeatsOk) (pending : PendingBuyInId) :
    (t.addPendingProposal p pending).2.SeatsOk := by
  rw [TableObject.addPendingProposal]
  rcases hp : t.pendingProposals.find? p with - | old
  · rw [SeatsOk, seated_eq_proposals] at h ⊢
    refine SeatChange.Applies.counts (s := .opened) ⟨fun hmem ↦ ?_, ?_⟩ h contains_or_contains
    · obtain ⟨b, hb⟩ := FlatMap.mem_keys.1 hmem
      rw [hp] at hb
      cases hb
    · exact FlatMap.keys_insert ..
  · have hkeys : (t.pendingProposals.insert p pending).keys = t.pendingProposals.keys :=
      (FlatMap.keys_insert ..).trans (Finset.insert_eq_of_mem (FlatMap.mem_keys.2 ⟨old, hp⟩))
    rw [SeatsOk, seated] at h ⊢
    simp only [hkeys]
    exact h

theorem SeatsOk.removePendingProposal (h : t.SeatsOk) (p : PlayerId) :
    (t.removePendingProposal p).SeatsOk := by
  rw [TableObject.removePendingProposal]
  rcases hp : t.pendingProposals.find? p with - | b
  · exact h
  · rw [SeatsOk, seated_eq_proposals] at h ⊢
    exact SeatChange.Applies.counts (s := .closed)
      ⟨FlatMap.mem_keys.2 ⟨b, hp⟩, FlatMap.keys_erase ..⟩ h contains_or_contains

end TableObject

end Playchain
