import Playchain.Spec.VotingTasks

/-!
# What a decision does to a game

Whatever the state it is applied in, a decision keeps the cash maps of its table in order and either
leaves the game alone, or starts one, or ends it together with the pending buy-outs of the table
(`GameMove`). As in `LocalTo`, only successful computations are looked at.

So the tasks on votings and games keep the games in order (`GamesOk`), whatever the votings are about:
also where a voting has been left behind by a game before the tenth hard fork.
-/

namespace Playchain

variable {d d' d₁ : Database} {table : TableId} {t t' : TableObject}

/-! ### Adjustments -/

/-- An adjustment leaves a map in order, whatever the amount is. -/
theorem adjustEntry_ok {m : FlatMap PlayerId Asset} {p : PlayerId} {delta : Asset} {r : Adjusted}
    (hm : CashOk m) (h : adjustEntry m p delta = .ok r) : CashOk r.cash := by
  obtain ⟨-, hpos, -, rfl⟩ | ⟨-, -, rfl⟩ | ⟨old, -, -, -, rfl⟩ | ⟨old, hp, -, hge, rfl⟩ :=
    adjustEntry_cases h
  · exact hm.insert hpos rfl
  · exact hm
  · exact hm.erase p
  · exact hm.insert hge (hm p old hp).2

theorem adjustCash_ok {p : PlayerId} {delta : Asset} (ht : t.CashesOk)
    (h : t.adjustCash p delta = .ok t') :
    t'.CashesOk ∧ t'.playingCash = t.playingCash ∧ t'.gameExpiration = t.gameExpiration := by
  obtain ⟨r, hr, h⟩ := Except.bind_eq_ok.1 h
  obtain rfl := Except.pure_eq_ok.1 h
  exact ⟨⟨adjustEntry_ok ht.cash hr, ht.playingCash⟩, rfl, rfl⟩

theorem adjustPlayingCash_ok {p : PlayerId} {delta : Asset} (ht : t.CashesOk)
    (h : t.adjustPlayingCash p delta = .ok t') : t'.CashesOk := by
  obtain ⟨r, hr, h⟩ := Except.bind_eq_ok.1 h
  obtain rfl := Except.pure_eq_ok.1 h
  exact ⟨ht.cash, adjustEntry_ok ht.playingCash hr⟩

/-- Whoever brings something to a game is in it, and nobody leaves it. -/
theorem adjustPlayingCash_isPlaying {p : PlayerId} {delta : Asset} (ht : t.CashesOk)
    (hpos : 0 < delta.amount) (h : t.adjustPlayingCash p delta = .ok t') :
    t'.isPlaying p = true ∧ ∀ q, t.isPlaying q = true → t'.isPlaying q = true := by
  obtain ⟨r, hr, h⟩ := Except.bind_eq_ok.1 h
  obtain rfl := Except.pure_eq_ok.1 h
  have hinsert : ∀ v, (t.playingCash.insert p v).contains p = true ∧
      ∀ q, t.playingCash.contains q = true → (t.playingCash.insert p v).contains q = true := by
    intro v
    simp only [FlatMap.contains, FlatMap.find?_insert]
    refine ⟨by simp, fun q hq ↦ ?_⟩
    split_ifs
    · rfl
    · exact hq
  obtain ⟨-, -, -, rfl⟩ | ⟨-, hneg, -⟩ | ⟨old, hp, -, hlt, -⟩ | ⟨old, -, -, -, rfl⟩ :=
    adjustEntry_cases hr
  · exact hinsert _
  · omega
  · have := (ht.playingCash p old hp).1
    omega
  · exact hinsert _

/-- A loop over players that keeps the maps in order in each turn. -/
theorem foldlM_ok {l : List (PlayerId × Asset)}
    {f : TableObject → PlayerId × Asset → Except ChainError TableObject}
    (hf : ∀ t p t', t.CashesOk → f t p = .ok t' → t'.CashesOk) (ht : t.CashesOk)
    (h : l.foldlM f t = .ok t') : t'.CashesOk := by
  have hfold : (l.foldlM f t).Ensures anyError TableObject.CashesOk :=
    Except.Ensures.foldlM TableObject.CashesOk
      (fun p _ u hu ↦ .of_forall fun u' hu' ↦ hf u p u' hu hu') ht
  exact hfold.of_ok h

/-- Moving cash into the game: everybody who brings something is in it, and nobody leaves it. -/
theorem startPlaying_ok {c : FlatMap PlayerId Asset} (ht : t.CashesOk)
    (hc : ∀ p v, c.find? p = some v → 0 < v.amount) (h : startPlaying c t = .ok t') :
    t'.CashesOk ∧ (∀ p, c.contains p = true → t'.isPlaying p = true) ∧
      ∀ q, t.isPlaying q = true → t'.isPlaying q = true := by
  let I (l : List (PlayerId × Asset)) (s : TableObject) : Prop := s.CashesOk ∧
    (∀ p ∈ c.toList, p ∈ l ∨ s.isPlaying p.1 = true) ∧ (∀ p ∈ l, 0 < p.2.amount) ∧
    ∀ q, t.isPlaying q = true → s.isPlaying q = true
  have hfold : (startPlaying c t).Ensures anyError (I []) := by
    refine Except.Ensures.foldlM_suffix I ?_ ⟨ht, fun p hp ↦ Or.inl hp, fun p hp ↦ ?_, fun _ hq ↦ hq⟩
    · rintro p l s ⟨hs, hin, hpos, hstay⟩
      refine (Except.Ensures.any _).with_eq.bind fun s₁ ⟨h₁, _⟩ ↦ .of_forall fun s₂ h₂ ↦ ?_
      obtain ⟨hnew, hold⟩ := adjustPlayingCash_isPlaying hs (hpos p List.mem_cons_self) h₁
      obtain ⟨hok, hplaying, -⟩ := adjustCash_ok (adjustPlayingCash_ok hs h₁) h₂
      have hkeep : ∀ q, s₁.isPlaying q = true → s₂.isPlaying q = true := by
        intro q hq
        rw [TableObject.isPlaying, hplaying]
        exact hq
      refine ⟨hok, fun q hq ↦ ?_, fun q hq ↦ hpos q (List.mem_cons_of_mem _ hq),
        fun q hq ↦ hkeep q (hold q (hstay q hq))⟩
      rcases hin q hq with hq' | hq'
      · rcases List.mem_cons.1 hq' with rfl | hq'
        · exact Or.inr (hkeep _ hnew)
        · exact Or.inl hq'
      · exact Or.inr (hkeep _ (hold _ hq'))
    · exact hc p.1 p.2 (FlatMap.find?_eq_some_iff.2 hp)
  obtain ⟨hok, hin, -, hstay⟩ := hfold.of_ok h
  refine ⟨hok, fun p hp ↦ ?_, hstay⟩
  obtain ⟨v, hv⟩ := FlatMap.mem_keys.1 (FlatMap.contains_iff.1 hp)
  exact (hin (p, v) (FlatMap.find?_eq_some_iff.1 hv)).resolve_left (by simp)

theorem settlePlayer_ok {q : PlayerId × Asset} (ht : t.CashesOk) (h : settlePlayer t q = .ok t') :
    t'.CashesOk := by
  obtain ⟨t₁, h₁, h⟩ := Except.bind_eq_ok.1 h
  have hok : t₁.CashesOk := by
    split_ifs at h₁
    · exact (adjustCash_ok ht h₁).1
    · rw [← Except.pure_eq_ok.1 h₁]
      exact ht
  by_cases hc : t₁.playingCash.contains q.1 = true
  · rw [if_pos hc] at h
    exact adjustPlayingCash_ok hok h
  -- the empty amount that is entered is erased at once
  · rw [if_neg hc] at h
    have hnone : t₁.playingCash.find? q.1 = none := by
      rw [FlatMap.contains, Option.isSome_iff_ne_none, not_not] at hc
      exact hc
    rw [hnone] at h
    obtain ⟨r, hr, h⟩ := Except.bind_eq_ok.1 h
    obtain rfl := Except.pure_eq_ok.1 h
    refine ⟨hok.cash, ?_⟩
    have hfind : (t₁.playingCash.insert q.1 ({} : Asset)).find? q.1 = some {} := by
      rw [FlatMap.find?_insert, if_pos rfl]
    obtain ⟨hf, -⟩ | ⟨hf, -⟩ | ⟨old, -, -, -, rfl⟩ | ⟨old, hf, -, hge, -⟩ := adjustEntry_cases hr
    · rw [hfind] at hf
      cases hf
    · rw [hfind] at hf
      cases hf
    · intro p v hv
      rw [FlatMap.find?_erase] at hv
      split_ifs at hv with hp
      rw [FlatMap.find?_insert, if_neg hp] at hv
      exact hok.playingCash p v hv
    · rw [hfind] at hf
      obtain rfl := Option.some.inj hf
      simp at hge

/-- Moving cash out of the game leaves nothing in it. -/
theorem settlePlaying_ok {c : FlatMap PlayerId Asset} (ht : t.CashesOk)
    (h : settlePlaying c t = .ok t') : t'.CashesOk ∧ t'.playingCash = ∅ := by
  obtain ⟨t₁, h₁, h₂⟩ := Except.bind_eq_ok.1 h
  have hok := foldlM_ok (fun _ _ _ ↦ settlePlayer_ok) ht h₁
  obtain ⟨t₂, h₂', hmove, -, hempty⟩ := returnRest_spec hok
  obtain rfl := Except.ok.inj (h₂'.symm.trans h₂)
  exact ⟨hmove.ok, hempty⟩

theorem rolledBack_ok {fullClear : Bool} (ht : t.CashesOk) (h : rolledBack fullClear t = .ok t') :
    t'.CashesOk ∧ t'.playingCash = ∅ ∧ t'.gameExpiration = TimePointSec.maximum := by
  rw [rolledBack] at h
  split_ifs at h
  · obtain rfl := Except.pure_eq_ok.1 h
    exact ⟨⟨.empty, .empty⟩, rfl, rfl⟩
  · obtain ⟨t₁, h₁, h₂⟩ := Except.bind_eq_ok.1 h
    obtain rfl := Except.pure_eq_ok.1 h₂
    obtain ⟨t₀, ht₀⟩ : ∃ t₀ : TableObject, t₀ = { t with
      gameCreated := TimePointSec.min, gameExpiration := TimePointSec.maximum } := ⟨_, rfl⟩
    rw [← ht₀] at h₁
    have hstart : t₀.CashesOk ∧ t₀.gameExpiration = TimePointSec.maximum := by
      rw [ht₀]
      exact ⟨⟨ht.cash, ht.playingCash⟩, rfl⟩
    have hfold := (Except.Ensures.foldlM (E := anyError)
      (fun s : TableObject ↦ s.CashesOk ∧ s.gameExpiration = TimePointSec.maximum)
      (fun p _ u hu ↦ .of_forall fun u' hu' ↦ ⟨(adjustCash_ok hu.1 hu').1,
        (adjustCash_ok hu.1 hu').2.2.trans hu.2⟩) hstart).of_ok h₁
    exact ⟨⟨hfold.1.cash, .empty⟩, rfl, hfold.2⟩

/-! ### Moves -/

/-- The game of a table before and after a decision. -/
inductive GameChange (deadline : TimePointSec) (served : Prop) (t t' : TableObject) : Prop
  | unchanged (hp : t'.playingCash = t.playingCash) (he : t'.gameExpiration = t.gameExpiration)
  | ended (hp : t'.playingCash = ∅) (he : t'.gameExpiration = TimePointSec.maximum) (hs : served)
  | started (hp : t'.isFree = false) (he : t'.gameExpiration = deadline)
      (hstay : ∀ p, t.isPlaying p = true → t'.isPlaying p = true)

/-- No buy-out of the table is pending. -/
def NoBuyOuts (table : TableId) (d : Database) : Prop :=
  ∀ i b, d.pendingBuyOuts.find? i = some b → b.table ≠ table

/-- **What a decision does to the game of a table.** -/
structure GameMove (table : TableId) (d d' : Database) : Prop where
  /-- No buy-out is added. -/
  buyOuts : ∀ i b, d'.pendingBuyOuts.find? i = some b → d.pendingBuyOuts.find? i = some b
  game : ∀ t, d.tables.find? table = some t → t.CashesOk → ∃ t', d'.tables.find? table = some t' ∧
    t'.CashesOk ∧ GameChange (TimePointSec.addSeconds d.headBlockTime
      d.parameters.gameLifetimeLimitInSeconds) (NoBuyOuts table d') t t'

namespace GameMove

/-- The game is left alone. -/
theorem of_eq (ht : d'.tables = d.tables) (hb : d'.pendingBuyOuts = d.pendingBuyOuts) :
    GameMove table d d' where
  buyOuts _ _ h := hb ▸ h
  game t h hok := ⟨t, ht ▸ h, hok, .unchanged rfl rfl⟩

theorem refl (table : TableId) (d : Database) : GameMove table d d := of_eq rfl rfl

/-- Something else before the decision. -/
theorem after (h : GameMove table d₁ d') (ht : d₁.tables = d.tables)
    (hb : d₁.pendingBuyOuts = d.pendingBuyOuts) (hn : d₁.headBlockTime = d.headBlockTime)
    (hp : d₁.parameters = d.parameters) : GameMove table d d' where
  buyOuts i b hi := hb ▸ h.buyOuts i b hi
  game t htab hok := by
    rw [← hn, ← hp]
    exact h.game t (ht ▸ htab) hok

/-- Something else after the decision. -/
theorem before (h : GameMove table d d₁) (ht : d'.tables = d₁.tables)
    (hb : d'.pendingBuyOuts = d₁.pendingBuyOuts) : GameMove table d d' where
  buyOuts i b hi := h.buyOuts i b (hb ▸ hi)
  game t htab hok := by
    rw [ht, NoBuyOuts, hb]
    exact h.game t htab hok

end GameMove

/-! ### The end of a game -/

/-- Serving a buy-out leaves the maps of the table in order. -/
theorem modifyTable_ok {body : TableObject → Except ChainError TableObject}
    (hbody : ∀ t t', t.CashesOk → body t = .ok t' → t'.CashesOk)
    (h : d.tables.find? table = some t) (ht : t.CashesOk) :
    (d.modifyTable table body).Ensures anyError fun d' ↦ d'.pendingBuyOuts = d.pendingBuyOuts ∧
      ∃ t', d'.tables.find? table = some t' ∧ t'.CashesOk := by
  refine .bind_of_eq (tableById_of_find? h) ?_
  refine (Except.Ensures.any _).with_eq.bind fun t' ⟨ht', _⟩ ↦ .pure ⟨rfl, t', ?_, hbody t t' ht ht'⟩
  exact ObjectIndex.find?_set_self h _

/-- The table is there, and its maps are in order. -/
def InOrder (table : TableId) (d : Database) : Prop :=
  ∃ t, d.tables.find? table = some t ∧ t.CashesOk

theorem resolveFromCash_ok (h : InOrder table d) (player : PlayerId) (rest : Asset) :
    (resolveFromCash d table player rest).Ensures anyError fun s ↦
      s.2.pendingBuyOuts = d.pendingBuyOuts ∧ InOrder table s.2 := by
  obtain ⟨t, ht, hok⟩ := h
  refine .bind_of_eq (tableById_of_find? ht) ?_
  split
  · exact .pure ⟨rfl, t, ht, hok⟩
  · split_ifs
    · exact (Except.Ensures.any _).bind fun _ _ ↦ (Except.Ensures.any _).bind fun _ _ ↦
        (modifyTable_ok (fun _ _ hu hu' ↦ (adjustCash_ok hu hu').1) ht hok).bind fun _ h ↦ .pure h
    · exact .pure ⟨rfl, t, ht, hok⟩

theorem resolveFromPlayingCash_ok (h : InOrder table d) (player : PlayerId) (rest : Asset)
    (inResult : Bool) :
    (resolveFromPlayingCash d table player rest inResult).Ensures anyError fun s ↦
      s.2.pendingBuyOuts = d.pendingBuyOuts ∧ InOrder table s.2 := by
  obtain ⟨t, ht, hok⟩ := h
  refine .bind_of_eq (tableById_of_find? ht) ?_
  split
  · exact .pure ⟨rfl, t, ht, hok⟩
  · split_ifs
    · exact (Except.Ensures.any _).bind fun _ _ ↦ (Except.Ensures.any _).bind fun _ _ ↦
        (modifyTable_ok (fun _ _ hu hu' ↦ adjustPlayingCash_ok hu hu') ht hok).bind fun _ h ↦ .pure h
    · exact .pure ⟨rfl, t, ht, hok⟩

theorem resolvePendingBuyOut_ok {s : Database × GameResult} (h : InOrder table s.1)
    (owner : AccountId) (p : ℕ × PendingBuyOutObject) :
    (resolvePendingBuyOut table owner s p).Ensures anyError fun s' ↦
      s'.1.pendingBuyOuts = s.1.pendingBuyOuts.remove p.1 ∧ InOrder table s'.1 := by
  refine (Except.Ensures.any _).bind fun _ _ ↦ (Except.Ensures.any _).bind fun ⟨rest₁, r₁⟩ _ ↦ ?_
  refine (resolveFromCash_ok h _ rest₁).bind fun ⟨rest₂, d₂⟩ ⟨hb₂, h₂⟩ ↦ ?_
  refine (resolveFromPlayingCash_ok h₂ _ rest₂ _).bind fun ⟨rest₃, d₃⟩ ⟨hb₃, h₃⟩ ↦ ?_
  refine (Except.Ensures.any _).bind fun allowed _ ↦ ?_
  refine Except.Ensures.bind (Q := fun e ↦ e.pendingBuyOuts = d₃.pendingBuyOuts ∧
    e.tables = d₃.tables) ?_ fun d₄ ⟨hb₄, ht₄⟩ ↦ .pure ?_
  · split_ifs
    · refine (adjustBalance_ensures d₃ _ _ fun _ _ ↦ trivial).bind ?_
      rintro _ ⟨b, rfl, -⟩
      exact .pure ⟨rfl, rfl⟩
    · exact .pure ⟨rfl, rfl⟩
  · have horder : InOrder table d₄ := by
      rw [InOrder, ht₄]
      exact h₃
    have hbuyOuts := congrArg (·.remove p.1) (hb₄.trans (hb₃.trans hb₂))
    dsimp only
    split_ifs
    · exact ⟨hbuyOuts, horder⟩
    · exact ⟨hbuyOuts, horder⟩

/-- **All buy-outs of a table are served.** -/
theorem pendingBuyoutsResolve_ok (h : InOrder table d) (owner : AccountId) (r : GameResult) :
    (pendingBuyoutsResolve d table owner r).Ensures anyError fun s ↦
      (∀ i b, s.1.pendingBuyOuts.find? i = some b → d.pendingBuyOuts.find? i = some b) ∧
        NoBuyOuts table s.1 ∧ InOrder table s.1 := by
  let I (l : List (ℕ × PendingBuyOutObject)) (s : Database × GameResult) : Prop :=
    (∀ i b, s.1.pendingBuyOuts.find? i = some b →
      d.pendingBuyOuts.find? i = some b ∧ (b.table = table → (i, b) ∈ l)) ∧ InOrder table s.1
  refine (Except.Ensures.foldlM_suffix I ?_ ⟨fun i b hb ↦ ⟨hb, fun hbt ↦ ?_⟩, h⟩).mono ?_
  · rintro p l s ⟨hbuyOuts, horder⟩
    refine (resolvePendingBuyOut_ok horder owner p).mono fun s' ⟨heq, horder'⟩ ↦ ⟨fun i b hb ↦ ?_,
      horder'⟩
    rw [heq] at hb
    obtain ⟨hne, hb⟩ := ObjectIndex.find?_of_find?_remove hb
    obtain ⟨hd, hl⟩ := hbuyOuts i b hb
    refine ⟨hd, fun hbt ↦ ?_⟩
    rcases List.mem_cons.1 (hl hbt) with hp | hmem
    · exact absurd (congrArg Prod.fst hp) hne
    · exact hmem
  · exact List.mem_filter.2 ⟨ObjectIndex.find?_eq_some_iff.1 hb, decide_eq_true hbt⟩
  · rintro s ⟨hbuyOuts, horder⟩
    refine ⟨fun i b hb ↦ (hbuyOuts i b hb).1, fun i b hb hbt ↦ ?_, horder⟩
    cases (hbuyOuts i b hb).2 hbt

/-- A game ends: its buy-outs are served first. -/
theorem GameMove.of_ended
    (hbuyOuts : ∀ i b, d'.pendingBuyOuts.find? i = some b → d.pendingBuyOuts.find? i = some b)
    (hserved : NoBuyOuts table d') (ht' : d'.tables.find? table = some t') (hok : t'.CashesOk)
    (hp : t'.playingCash = ∅) (he : t'.gameExpiration = TimePointSec.maximum) :
    GameMove table d d' :=
  ⟨hbuyOuts, fun _ _ _ ↦ ⟨t', ht', hok, .ended hp he hserved⟩⟩

/-- `d'` differs from `d` in nothing that concerns games. -/
structure SameGames (d d' : Database) : Prop where
  tables : d'.tables = d.tables
  pendingBuyOuts : d'.pendingBuyOuts = d.pendingBuyOuts
  headBlockTime : d'.headBlockTime = d.headBlockTime
  parameters : d'.parameters = d.parameters

theorem SameGames.refl (d : Database) : SameGames d d := ⟨rfl, rfl, rfl, rfl⟩

theorem SameGames.inOrder (h : SameGames d d') (ho : InOrder table d) : InOrder table d' := by
  rw [InOrder, h.1]
  exact ho

theorem returnCash_sameGames (d : Database) (table : TableId) (owner : AccountId) (t : TableObject)
    (fullClear : Bool) : (returnCash d table owner t fullClear).Ensures anyError (SameGames d) := by
  rw [returnCash]
  split_ifs
  · refine (Except.Ensures.any _).bind fun c _ ↦
      Except.Ensures.foldlM (SameGames d) ?_ (.refl d)
    intro p _ e he
    refine (Except.Ensures.any _).bind fun obj _ ↦ ?_
    refine (adjustBalance_ensures _ _ _ fun _ _ ↦ trivial).mono ?_
    rintro _ ⟨b, rfl, -⟩
    exact ⟨he.1, he.2, he.3, he.4⟩
  · refine Except.Ensures.foldlM (SameGames d) ?_ (.refl d)
    exact fun p _ e he ↦ (Except.Ensures.any _).bind fun _ _ ↦ .pure ⟨he.1, he.2, he.3, he.4⟩

theorem cleanupPendingVotes_sameGames (d : Database) (id : TableId) :
    SameGames d (cleanupPendingVotes d id) := by
  rw [cleanupPendingVotes]
  split_ifs
  · exact List.foldlRecOn (motive := SameGames d) _ _ (.refl d) fun _ he _ _ ↦
    ⟨he.1, he.2, he.3, he.4⟩
  · exact ⟨rfl, rfl, rfl, rfl⟩

theorem cleanupVoting_sameGames (d : Database) (id : TableId) : SameGames d (cleanupVoting d id) := by
  rw [cleanupVoting]
  split
  · exact ⟨rfl, rfl, rfl, rfl⟩
  · exact ⟨rfl, rfl, rfl, rfl⟩

theorem cleanupBuyIns_sameGames (d : Database) (id : TableId) : SameGames d (cleanupBuyIns d id) :=
  List.foldlRecOn (motive := SameGames d) _ _ (.refl d) fun _ he _ _ ↦
    ⟨he.1, he.2, he.3, he.4⟩

theorem registerBuyIn_sameGames (d : Database) (player : PlayerId) (id : TableId) :
    (registerBuyIn d player id).Ensures anyError (SameGames d) := by
  rw [registerBuyIn]
  split
  · exact .pure ⟨rfl, rfl, rfl, rfl⟩
  · exact (Except.Ensures.any _).bind fun _ _ ↦ .pure ⟨rfl, rfl, rfl, rfl⟩

theorem obsoleteBuyinsResolve_sameGames (d : Database) (id : TableId) (clear : Bool) :
    (obsoleteBuyinsResolve d id clear).Ensures anyError (SameGames d) := by
  refine (Except.Ensures.any _).bind fun t _ ↦ .pure ?_
  refine List.foldlRecOn (motive := SameGames d) _ _ (.refl d) fun e he b _ ↦ ?_
  split_ifs
  · exact ⟨he.1, he.2, he.3, he.4⟩
  · exact ⟨he.1, he.2, he.3, he.4⟩
  · exact he

theorem GameMove.after_same (h : GameMove table d₁ d') (hs : SameGames d d₁) : GameMove table d d' :=
  h.after hs.1 hs.2 hs.3 hs.4

theorem GameMove.then_same (h : GameMove table d d₁) (hs : SameGames d₁ d') : GameMove table d d' :=
  h.before hs.1 hs.2

theorem withRegistrationBuyIn_move (callback : Database → Except ChainError Database)
    (hcall : (callback d).Ensures anyError (GameMove table d)) :
    (withRegistrationBuyIn d table callback).Ensures anyError (GameMove table d) := by
  refine (Except.Ensures.any _).bind fun _ _ ↦ hcall.bind fun d₁ h₁ ↦ ?_
  refine (Except.Ensures.any _).bind fun _ _ ↦ Except.Ensures.foldlM (GameMove table d) ?_ h₁
  exact fun p _ e he ↦ (registerBuyIn_sameGames e p.1 table).mono fun _ h ↦ he.then_same h

theorem rollbackImpl_move (h : InOrder table d) (fullClear : Bool) :
    (rollbackImpl d table fullClear).Ensures anyError (GameMove table d) := by
  refine (Except.Ensures.any _).bind fun _ _ ↦ (Except.Ensures.any _).bind fun owner _ ↦ ?_
  have hlog : InOrder table (d.pushGameEvent table owner .gameRollback) := h
  refine (pendingBuyoutsResolve_ok hlog owner {}).bind fun s ⟨hbuyOuts, hserved, horder⟩ ↦ ?_
  refine (Except.Ensures.any _).bind fun t _ ↦ ?_
  refine (returnCash_sameGames s.1 table owner t fullClear).bind fun d₂ h₂ ↦ ?_
  obtain ⟨u, hu, hok⟩ := h₂.inOrder horder
  refine .bind (Q := GameMove table d) (.bind_of_eq (tableById_of_find? hu) ?_) fun d₃ h₃ ↦
    .pure (h₃.then_same (cleanupPendingVotes_sameGames d₃ table))
  refine (Except.Ensures.any _).with_eq.bind fun u' ⟨hu', _⟩ ↦ .pure ?_
  obtain ⟨hok', hp, he⟩ := rolledBack_ok hok hu'
  refine .of_ended (fun i b hb ↦ hbuyOuts i b ?_) (fun i b hb ↦ hserved i b ?_)
    (ObjectIndex.find?_set_self hu u') hok' hp he
  · rw [← h₂.2]
    exact hb
  · rw [← h₂.2]
    exact hb

theorem rollback_move (h : InOrder table d) (fullClear : Bool) :
    (rollback d table fullClear).Ensures anyError (GameMove table d) := by
  have himpl := rollbackImpl_move h fullClear
  rw [rollback]
  by_cases htime : hardforkPlaychain10Time ≤ d.headBlockTime
  · rw [if_pos htime]
    refine Except.Ensures.bind (Q := GameMove table d) ?_ fun d₁ h₁ ↦
      .pure (h₁.then_same (cleanupVoting_sameGames d₁ table))
    cases fullClear with
    | false => exact withRegistrationBuyIn_move (fun d ↦ rollbackImpl d table false) himpl
    | true => exact himpl.bind fun d₁ h₁ ↦ .pure (h₁.then_same (cleanupBuyIns_sameGames d₁ table))
  · rw [if_neg htime]
    exact himpl.bind fun d₁ h₁ ↦ (obsoleteBuyinsResolve_sameGames d₁ table fullClear).mono
      fun _ hs ↦ h₁.then_same hs

theorem bookRakes_sameGames (d : Database) (t : TableObject) (witnesses : FlatSet GameWitnessId)
    (r : GameResult) : (bookRakes d t witnesses r).Ensures anyError fun s ↦ SameGames d s.1 :=
  (bookRakes_owed d t witnesses r).mono fun _ ⟨_, heq, _⟩ ↦ by
    rw [heq]
    exact ⟨rfl, rfl, rfl, rfl⟩

theorem applyGameResultImpl_move (h : InOrder table d) (owner : AccountId)
    (witnesses : FlatSet GameWitnessId) (r : GameResult) :
    (applyGameResultImpl d table owner witnesses r).Ensures anyError (GameMove table d) := by
  refine (pendingBuyoutsResolve_ok h owner r).bind fun ⟨d₁, r₁⟩ ⟨hbuyOuts, hserved, horder⟩ ↦ ?_
  refine (Except.Ensures.any _).bind fun t _ ↦ ?_
  refine (bookRakes_sameGames d₁ t witnesses r₁).bind fun ⟨d₂, rake, cashResult⟩ h₂ ↦ ?_
  refine (Except.Ensures.any _).bind fun room _ ↦ (Except.Ensures.any _).bind fun pendingRake _ ↦ ?_
  obtain ⟨u, hu, hok⟩ := h₂.inOrder horder
  refine .bind (Q := GameMove table d) (.bind_of_eq (tableById_of_find? hu) ?_) fun d₃ h₃ ↦
    .pure (h₃.before rfl rfl)
  refine (Except.Ensures.any _).with_eq.bind fun u' ⟨hu', _⟩ ↦ .pure ?_
  obtain ⟨u₁, hu₁, hu₂⟩ := Except.bind_eq_ok.1 hu'
  obtain ⟨hok₁, hp⟩ := settlePlaying_ok hok hu₁
  obtain rfl := Except.pure_eq_ok.1 hu₂
  refine .of_ended (fun i b hb ↦ hbuyOuts i b ?_) (fun i b hb ↦ hserved i b ?_)
    (ObjectIndex.find?_set_self hu _) ⟨hok₁.cash, hok₁.playingCash⟩ hp rfl
  · rw [← h₂.2]
    exact hb
  · rw [← h₂.2]
    exact hb

/-- Reports of frauds are only logged. -/
theorem reportFrauds_move {α : Type} (get : VotingData → Except ChainError α)
    (event : AccountId → α → GameEvent) {owner : AccountId} (h : GameMove table d d')
    (invalid : FlatMap AccountId VotingData) :
    (invalid.toList.foldlM (fun (d : Database) (p : AccountId × VotingData) ↦ do
      let y ← get p.2
      return d.pushGameEvent table owner (event p.1 y)) d').Ensures anyError (GameMove table d) := by
  refine Except.Ensures.foldlM (GameMove table d) ?_ h
  exact fun p _ e he ↦ (Except.Ensures.any _).bind fun y _ ↦ .pure (he.before rfl rfl)

theorem applyGameResultWithConsensus_move (h : InOrder table d) (c : Consensus) :
    (applyGameResultWithConsensus d table c).Ensures anyError (GameMove table d) := by
  refine (Except.Ensures.any _).bind fun r _ ↦ (Except.Ensures.any _).bind fun _ _ ↦ ?_
  refine (Except.Ensures.any _).bind fun owner _ ↦ ?_
  have himpl := applyGameResultImpl_move h owner c.requiredWitnesses r
  refine Except.Ensures.bind (Q := GameMove table d) ?_ fun d₁ h₁ ↦
    reportFrauds_move VotingData.getGameResult
      (fun a y ↦ .fraudGameResultCheck a y.log r.log) h₁ c.accountsWithInvalidVote
  split_ifs
  · exact rollback_move h false
  · exact withRegistrationBuyIn_move
      (fun d ↦ applyGameResultImpl d table owner c.requiredWitnesses r) himpl
  · exact himpl.bind fun d₁ h₁ ↦ (obsoleteBuyinsResolve_sameGames d₁ table false).mono
      fun _ hs ↦ h₁.then_same hs

/-! ### The start of a game -/

/-- Somebody brings something, and nobody less than that. -/
def BringsCash (x : VotingData) : Prop :=
  ∀ data, x = .gameInitialData data →
    data.cash.isEmpty = false ∧ ∀ a v, data.cash.find? a = some v → 0 < v.amount

/-- A valid start brings cash, under the rules since the sixth hard fork. -/
theorem bringsCash_of_isValidStart {x : VotingData} (htime : hardforkPlaychain6Time ≤ d.headBlockTime)
    (h : isValidStart d table t x = true) : BringsCash x := by
  rintro data rfl
  rw [isValidStart, validateInitialData] at h
  by_cases hempty : data.cash.isEmpty = true
  · simp [if_pos hempty, pure, Except.pure, not_lt.2 htime] at h
  · refine ⟨Bool.not_eq_true _ ▸ hempty, fun a v ha ↦ ?_⟩
    rw [if_neg hempty] at h
    rcases hc : initialCash d t data with - | c
    · simp [hc, pure, Except.pure] at h
    · exact ((initialCash_eq_some hc).2.2 a v ha).1

theorem applyStartPlayingWithConsensus_move (h : InOrder table d) {c : Consensus}
    (hc : BringsCash c.validVote) :
    (applyStartPlayingWithConsensus d table c).Ensures anyError (GameMove table d) := by
  refine (Except.Ensures.any _).with_eq.bind ?_
  rintro data ⟨hdata, -⟩
  have hvote : c.validVote = .gameInitialData data := by
    rcases hx : c.validVote with x | r
    · rw [hx] at hdata
      exact congrArg _ (Except.ok.inj hdata)
    · rw [hx] at hdata
      cases hdata
  obtain ⟨hnonempty, hpos⟩ := hc data hvote
  refine (Except.Ensures.any _).bind fun _ _ ↦ (Except.Ensures.any _).bind fun owner _ ↦ ?_
  let I (l : List (AccountId × Asset)) (m : FlatMap PlayerId Asset) : Prop :=
    (∀ p v, m.find? p = some v → 0 < v.amount) ∧ (∀ p ∈ l, 0 < p.2.amount) ∧
      (l = [] → ∃ p, m.contains p = true)
  have hcash : (data.cash.toList.foldlM (fun (cash : FlatMap PlayerId Asset) p ↦ do
      return cash.insert (← d.getPlayer p.1).1 p.2) ∅ : Except ChainError _).Ensures anyError
      (I []) := by
    refine Except.Ensures.foldlM_suffix I ?_ ⟨fun p v hp ↦ by simp at hp, fun p hp ↦
      hpos p.1 p.2 (FlatMap.find?_eq_some_iff.2 hp), fun hnil ↦ ?_⟩
    · rintro p l m ⟨hm, hl, -⟩
      refine (Except.Ensures.any _).bind fun player _ ↦ .pure ⟨fun q v hq ↦ ?_, fun q hq ↦
        hl q (List.mem_cons_of_mem _ hq), fun _ ↦ ⟨player.1, ?_⟩⟩
      · rw [FlatMap.find?_insert] at hq
        split_ifs at hq
        · exact Option.some.inj hq ▸ hl p List.mem_cons_self
        · exact hm q v hq
      · rw [FlatMap.contains, FlatMap.find?_insert, if_pos rfl]
        rfl
    · rw [FlatMap.isEmpty, hnil] at hnonempty
      cases hnonempty
  refine hcash.bind ?_
  rintro m ⟨hm, -, hsome⟩
  obtain ⟨u, hu, hok⟩ := h
  refine .bind (Q := GameMove table d) (.bind_of_eq (tableById_of_find? hu) ?_) fun d₁ h₁ ↦ ?_
  · refine (Except.Ensures.any _).with_eq.bind ?_
    rintro u' ⟨hu', -⟩
    refine .pure ?_
    obtain ⟨u₁, hu₁, hu₂⟩ := Except.bind_eq_ok.1 hu'
    obtain ⟨hok₁, hin, hstay⟩ := startPlaying_ok hok hm hu₁
    obtain rfl := Except.pure_eq_ok.1 hu₂
    refine ⟨fun _ _ hb ↦ hb, fun w hw _ ↦ ⟨_, ObjectIndex.find?_set_self hu _,
      ⟨hok₁.cash, hok₁.playingCash⟩, .started ?_ rfl fun p hp ↦ ?_⟩⟩
    · obtain ⟨p, hp⟩ := hsome rfl
      obtain ⟨v, hv⟩ := FlatMap.mem_keys.1 (FlatMap.contains_iff.1 (hin p hp))
      exact FlatMap.isEmpty_eq_false_iff.2 ⟨p, v, hv⟩
    · obtain rfl := Option.some.inj (hu.symm.trans hw)
      exact hstay p hp
  · have hlog : GameMove table d (d₁.pushGameEvent table owner (.gameStartPlayingValidated data)) :=
      h₁.before rfl rfl
    exact reportFrauds_move VotingData.getInitialData
      (fun a y ↦ .fraudGameStartPlayingCheck a y.info data.info) hlog
      c.accountsWithInvalidVote

/-! ### Handlers -/

theorem expireVotingForPlaying_move (d : Database) (id : ℕ) (v : TableVotingObject) :
    (expireVotingForPlaying d id v).Ensures anyError (GameMove v.table d) := by
  refine (Except.Ensures.any _).bind fun _ _ ↦ (Except.Ensures.any _).bind fun owner _ ↦ .pure ?_
  obtain ⟨d₁, hd₁⟩ : ∃ d₁, d₁ = { d.pushGameEvent v.table owner .failExpireGameStartPlaying with
    tableVotings := d.tableVotings.remove id } := ⟨_, rfl⟩
  have h₁ : GameMove v.table d d₁ := by
    rw [hd₁]
    exact .of_eq rfl rfl
  have h := h₁.then_same (cleanupPendingVotes_sameGames d₁ v.table)
  rw [hd₁] at h
  exact h

section Tallies

variable [GameDigest] {id : ℕ} {v : TableVotingObject}

/-- The tally changes nothing but the voting, and decides among the votes. -/
theorem voting_sameGames (d : Database) (id : ℕ) (v : TableVotingObject) (t : TableObject)
    (requied : PercentType) :
    (voting d id v t requied).Ensures anyError fun s ↦ SameGames d s.1 ∧
      ∀ c, s.2 = some c → ∃ a, v.votes.find? a = some c.validVote := by
  rw [voting]
  rcases hv : votingImpl v.votes requied with - | ⟨x, - | invalid⟩
  · exact .pure ⟨⟨rfl, rfl, rfl, rfl⟩, fun c hc ↦ by cases hc⟩
  · exact .error trivial
  · refine (Except.Ensures.any _).bind fun witnesses _ ↦
      .pure ⟨⟨rfl, rfl, rfl, rfl⟩, fun c hc ↦ ?_⟩
    obtain rfl := Option.some.inj hc
    exact (votingImpl_among hv).1

theorem tallyForPlaying_move (h : InOrder v.table d) (t : TableObject)
    (hvotes : ∀ a x, v.votes.find? a = some x → BringsCash x) :
    (tallyForPlaying d id v t).Ensures anyError (GameMove v.table d) := by
  refine (Except.Ensures.any _).bind fun owner _ ↦ ?_
  split_ifs
  · refine (voting_sameGames d id v t _).bind fun ⟨d₁, c⟩ ⟨hs, hc⟩ ↦ ?_
    have hm : GameMove v.table d d₁ := .then_same (.refl v.table d) hs
    cases c with
    | none => exact .pure (hm.before rfl rfl)
    | some c =>
      obtain ⟨a, ha⟩ := hc c rfl
      exact (applyStartPlayingWithConsensus_move (hs.inOrder h) (hvotes a _ ha)).mono fun _ hm ↦
        hm.after_same hs
  · exact .pure (.of_eq rfl rfl)

/-- Under the rules since the ninth hard fork only valid starts are counted. -/
theorem scheduledVotingForPlaying_move (htime : hardforkPlaychain9Time ≤ d.headBlockTime)
    (h : InOrder v.table d) :
    (scheduledVotingForPlaying d id v).Ensures anyError (GameMove v.table d) := by
  refine (Except.Ensures.any _).bind fun t _ ↦ ?_
  refine Except.Ensures.bind (Q := GameMove v.table d) ?_ fun d₁ h₁ ↦
    .pure (h₁.then_same (cleanupPendingVotes_sameGames d₁ v.table))
  rw [if_pos htime]
  refine (discardInvalidVotes_eq d v t).bind fun ⟨d₁, m⟩ ⟨⟨ops, heq⟩, hm⟩ ↦ ?_
  obtain ⟨d₂, hd₂⟩ : ∃ d₂, d₂ = { d₁ with tableVotings := d₁.tableVotings.modify id fun w ↦
    { w with votes := m } } := ⟨_, rfl⟩
  have hs : SameGames d d₂ := by
    dsimp only at heq
    rw [hd₂, heq]
    exact ⟨rfl, rfl, rfl, rfl⟩
  have hvotes : ∀ a x, m.find? a = some x → BringsCash x := by
    intro a x hx
    dsimp only at hm
    rw [hm] at hx
    refine bringsCash_of_isValidStart (le_trans ?_ htime) (FlatMap.find?_filter.1 hx).2
    decide
  have htally : (tallyForPlaying d₂ id { v with votes := m } t).Ensures anyError (GameMove v.table d₂) :=
    tallyForPlaying_move (v := { v with votes := m }) (hs.inOrder h) t hvotes
  rw [hd₂] at htally
  refine htally.mono fun _ hmove ↦ ?_
  rw [← hd₂] at hmove
  exact hmove.after_same hs

theorem scheduledVotingForResults_move (h : InOrder v.table d) :
    (scheduledVotingForResults d id v).Ensures anyError (GameMove v.table d) := by
  refine (Except.Ensures.any _).bind fun t _ ↦ ?_
  refine Except.Ensures.bind (Q := GameMove v.table d) ?_ fun d₁ h₁ ↦
    .pure (h₁.then_same (cleanupPendingVotes_sameGames d₁ v.table))
  refine (voting_sameGames d id v t _).bind fun ⟨d₁, c⟩ ⟨hs, _⟩ ↦ ?_
  have hin := hs.inOrder h
  cases c with
  | none =>
    refine (Except.Ensures.any _).bind fun owner _ ↦ ?_
    have hlog : SameGames d (d₁.pushGameEvent v.table owner .failConsensusGameResult) :=
      ⟨hs.1, hs.2, hs.3, hs.4⟩
    exact (rollback_move (hlog.inOrder h) false).mono fun _ hm ↦ hm.after_same hlog
  | some c => exact (applyGameResultWithConsensus_move hin c).mono fun _ hm ↦ hm.after_same hs

theorem expireVotingForResults_move (h : InOrder v.table d) :
    (expireVotingForResults d id v).Ensures anyError (GameMove v.table d) := by
  refine (Except.Ensures.any _).bind fun t _ ↦ ?_
  split_ifs
  · exact scheduledVotingForResults_move h
  · refine (Except.Ensures.any _).bind fun owner _ ↦ ?_
    obtain ⟨d₁, hd₁⟩ : ∃ d₁, d₁ = Database.pushGameEvent
      { d with tableVotings := d.tableVotings.remove id } v.table owner .failExpireGameResult :=
      ⟨_, rfl⟩
    have hs : SameGames d d₁ := by
      rw [hd₁]
      exact ⟨rfl, rfl, rfl, rfl⟩
    have hroll := rollback_move (hs.inOrder h) false
    rw [hd₁] at hroll
    refine hroll.mono fun _ hm ↦ ?_
    rw [← hd₁] at hm
    exact hm.after_same hs

end Tallies

/-! ### The tasks on votings and games -/

/-- **Games in order.** Cash is positive and in the core asset, a table has a deadline exactly while a game
is played, and whoever waits to leave is in the game. -/
structure GamesOk (d : Database) : Prop where
  cashes : ∀ id t, d.tables.find? id = some t → t.CashesOk
  clock : ∀ id t, d.tables.find? id = some t →
    (t.isFree = true ↔ t.gameExpiration = TimePointSec.maximum)
  leaving : ∀ i b, d.pendingBuyOuts.find? i = some b →
    ∃ t, d.tables.find? b.table = some t ∧ t.isPlaying b.player = true
  votings : ∀ i v, d.tableVotings.find? i = some v → d.tables.Has v.table

theorem GamesOk.inOrder (h : GamesOk d) (ht : d.tables.Has table) : InOrder table d := by
  obtain ⟨t, ht⟩ := ht
  exact ⟨t, ht, h.cashes table t ht⟩

/-- A decision at a table keeps all games in order. -/
theorem GamesOk.decided (h : GamesOk d) (ht : d.tables.Has table) (hclock : d.DeadlineFits)
    (hmove : GameMove table d d') (hlocal : LocalTo table d d') : GamesOk d' := by
  obtain ⟨t, ht⟩ := ht
  obtain ⟨t', ht', hok', hchange⟩ := hmove.game t ht (h.cashes table t ht)
  -- the tables of `d'` are the one of the decision and old ones
  have htables : ∀ id u, d'.tables.find? id = some u →
      (id = table ∧ u = t') ∨ (id ≠ table ∧ d.tables.find? id = some u) := by
    intro id u hu
    by_cases hid : id = table
    · rw [hid, ht'] at hu
      exact .inl ⟨hid, (Option.some.inj hu).symm⟩
    · exact .inr ⟨hid, hlocal.tables id hid ▸ hu⟩
  have hhas : ∀ id, d.tables.Has id → d'.tables.Has id := by
    rintro id ⟨u, hu⟩
    by_cases hid : id = table
    · exact ⟨t', hid ▸ ht'⟩
    · exact ⟨u, (hlocal.tables id hid).trans hu⟩
  refine ⟨fun id u hu ↦ ?_, fun id u hu ↦ ?_, fun i b hb ↦ ?_, fun i v hv ↦ ?_⟩
  · obtain ⟨-, rfl⟩ | ⟨-, hu⟩ := htables id u hu
    · exact hok'
    · exact h.cashes id u hu
  · obtain ⟨-, rfl⟩ | ⟨-, hu⟩ := htables id u hu
    · obtain ⟨hp, he⟩ | ⟨hp, he, -⟩ | ⟨hp, he, -⟩ := hchange
      · rw [TableObject.isFree, hp, he]
        exact h.clock table t ht
      · exact ⟨fun _ ↦ he, fun _ ↦ FlatMap.isEmpty_iff.2 hp⟩
      · rw [hp, he]
        exact ⟨fun hfree ↦ absurd hfree Bool.false_ne_true, fun hmax ↦ absurd hmax hclock.ne_maximum⟩
    · exact h.clock id u hu
  · obtain ⟨u, hu, hplays⟩ := h.leaving i b (hmove.buyOuts i b hb)
    by_cases hbt : b.table = table
    · rw [hbt] at hu ⊢
      obtain rfl := Option.some.inj (ht.symm.trans hu)
      refine ⟨t', ht', ?_⟩
      obtain ⟨hp, -⟩ | ⟨-, -, hs⟩ | ⟨-, -, hstay⟩ := hchange
      · rw [TableObject.isPlaying, hp]
        exact hplays
      · exact absurd hbt (hs i b hb)
      · exact hstay b.player hplays
    · exact ⟨u, (hlocal.tables b.table hbt).trans hu, hplays⟩
  · obtain ⟨w, hw, heq⟩ := hlocal.votings_old i v hv
    rw [heq]
    exact hhas w.table (h.votings i w hw)

/-- A loop of decisions, each at the table of an object that is due. -/
theorem GamesOk.loop {α : Type} {l : List α} {f : Database → α → Except ChainError Database}
    (h : GamesOk d) (hclock : d.DeadlineFits)
    (hf : ∀ a ∈ l, ∀ e, GamesOk e → Steady d e → (∀ id, d.tables.Has id → e.tables.Has id) →
      (f e a).Ensures anyError fun e' ↦
        e' = e ∨ ∃ table, e.tables.Has table ∧ GameMove table e e' ∧ LocalTo table e e') :
    (l.foldlM f d).Ensures anyError GamesOk := by
  refine (Except.Ensures.foldlM (fun e ↦ GamesOk e ∧ Steady d e ∧
    ∀ id, d.tables.Has id → e.tables.Has id) ?_ ⟨h, .refl d, fun _ hid ↦ hid⟩).mono fun _ h' ↦ h'.1
  rintro a ha e ⟨he, hsteady, hhas⟩
  refine (hf a ha e he hsteady hhas).mono ?_
  rintro e' (rfl | ⟨table, ht, hmove, hlocal⟩)
  · exact ⟨he, hsteady, hhas⟩
  · have hfits : e.DeadlineFits := by
      rw [Database.DeadlineFits, hsteady.headBlockTime, hsteady.parameters]
      exact hclock
    refine ⟨he.decided ht hfits hmove hlocal, hsteady.trans hlocal.toSteady, fun id hid ↦ ?_⟩
    obtain ⟨u, hu⟩ := hhas id hid
    by_cases hidt : id = table
    · obtain ⟨t', ht', -⟩ := hmove.game u (hidt ▸ hu) (he.cashes id u hu)
      exact ⟨t', hidt ▸ ht'⟩
    · exact ⟨u, (hlocal.tables id hidt).trans hu⟩

section Tallies

variable [GameDigest]

/-- **The tallies of a block** keep the games in order. -/
theorem updateScheduledVoting_gamesOk (htime : hardforkPlaychain9Time ≤ d.headBlockTime)
    (h : GamesOk d) (hclock : d.DeadlineFits) :
    (updateScheduledVoting d).Ensures anyError GamesOk := by
  refine h.loop hclock fun p _ e he hsteady _ ↦ ?_
  refine (orMissing_ensures fun _ ↦ trivial).bind fun v hv ↦ ?_
  have ht := he.votings p.1 v hv
  have hown : OwnVoting e p.1 v.table := .of_find? hv
  split_ifs
  · exact ((scheduledVotingForPlaying_move (hsteady.headBlockTime ▸ htime) (he.inOrder ht)).and
      (scheduledVotingForPlaying_local hown)).mono fun e' h' ↦ .inr ⟨v.table, ht, h'⟩
  · exact ((scheduledVotingForResults_move (he.inOrder ht)).and
      (scheduledVotingForResults_local hown)).mono fun e' h' ↦ .inr ⟨v.table, ht, h'⟩
  · exact .pure (.inl rfl)

/-- **Expired votings** keep the games in order. -/
theorem updateExpiredTableVoting_gamesOk (h : GamesOk d) (hclock : d.DeadlineFits) :
    (updateExpiredTableVoting d).Ensures anyError GamesOk := by
  refine h.loop hclock fun p _ e he _ _ ↦ ?_
  refine (orMissing_ensures fun _ ↦ trivial).bind fun v hv ↦ ?_
  have ht := he.votings p.1 v hv
  have hown : OwnVoting e p.1 v.table := .of_find? hv
  split_ifs
  · exact ((expireVotingForPlaying_move e p.1 v).and
      (expireVotingForPlaying_local e hown)).mono fun e' h' ↦ .inr ⟨v.table, ht, h'⟩
  · exact ((expireVotingForResults_move (he.inOrder ht)).and
      (expireVotingForResults_local hown)).mono fun e' h' ↦ .inr ⟨v.table, ht, h'⟩
  · exact .pure (.inl rfl)

end Tallies

/-- **Expired games** leave the games in order. -/
theorem updateExpiredTableGame_gamesOk (h : GamesOk d) (hclock : d.DeadlineFits) (maintenance : Bool) :
    (updateExpiredTableGame d maintenance).Ensures anyError GamesOk := by
  rw [updateExpiredTableGame]
  split_ifs
  · exact .pure h
  · refine h.loop hclock fun p hp e he _ hhas ↦ ?_
    have ht := hhas p.1 ⟨p.2, find?_of_mem_dueBy hp⟩
    refine (Except.Ensures.any _).bind fun t _ ↦ (Except.Ensures.any _).bind fun owner _ ↦ ?_
    have hlog : SameGames e (e.pushGameEvent p.1 owner .failExpireGameLifetime) := ⟨rfl, rfl, rfl, rfl⟩
    refine ((rollback_move (hlog.inOrder (he.inOrder ht)) true).and
      (rollback_local _ p.1 true)).mono ?_
    rintro e' ⟨hmove, hlocal⟩
    refine .inr ⟨p.1, ht, ?_, ?_⟩
    · exact hmove.after_same hlog
    · exact (LocalTo.log p.1 e _).trans hlocal

end Playchain
