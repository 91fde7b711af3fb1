import Playchain.Graphene.AssetEvaluator
import Playchain.Lib.Control
import Playchain.Lib.FunctionalGraph

/-!
# What backs market-issued assets

After a hard fork, the graph of the assets and what backs them stays *sound* (`AssetState.BackingSound`): no cycles and
no market-issued asset behind two market-issued ones, the committee's assets rest on CORE, and a prediction market has
the precision of its backing asset.

`AssetState.Change` says what an operation can do to the assets: one asset is created, changed without a change of what
backs it, or backed by another one. Two facts hold from the genesis on, hard fork or not (`AssetState.Grounded`): what
backs an asset exists, and CORE is not market-issued.
-/

namespace Playchain

open FunctionalGraph

namespace AssetState

variable {ρ : Type} {s s' : AssetState ρ} {i n : AssetId} {a b : AssetObject}

/-! ### The graph -/

/-- The asset that backs an asset, if there is one. -/
def backing (s : AssetState ρ) (i : AssetId) : Option AssetId := (s.assets.find? i).bind AssetObject.backing

/-- **The backing graph is sound.** -/
structure BackingSound (s : AssetState ρ) : Prop where
  /-- No market-issued asset is backed by itself or by a cycle. -/
  acyclic : ∀ i, ¬Relation.TransGen (Edge s.backing) i i
  /-- No market-issued asset is backed by one that is backed by one. -/
  shallow : Shallow s.backing
  /-- An asset of the committee is backed by CORE, or by a market-issued asset that is backed by CORE. -/
  committee : ∀ i a n, s.assets.find? i = some a → a.issuer = committeeAccount → a.backing = some n →
    n = coreAsset ∨ s.backing n = some coreAsset
  /-- A prediction market has the precision of its backing asset. -/
  precision : ∀ i a data, s.assets.find? i = some a → a.bitassetData = some data →
    data.isPredictionMarket = true →
    ∃ b, s.assets.find? data.options.shortBackingAsset = some b ∧ a.precision = b.precision

/-- What backs an asset exists, and CORE is not market-issued. -/
structure Grounded (s : AssetState ρ) : Prop where
  core : ∃ a, s.assets.find? coreAsset = some a ∧ a.bitassetData = none
  backed : ∀ i a n, s.assets.find? i = some a → a.backing = some n → ∃ b, s.assets.find? n = some b

theorem backing_of_find (ha : s.assets.find? i = some a) : s.backing i = a.backing := by
  rw [backing, ha]
  rfl

theorem exists_of_backing (h : s.backing i = some n) :
    ∃ a, s.assets.find? i = some a ∧ a.backing = some n := by
  rw [backing] at h
  cases ha : s.assets.find? i with
  | none =>
    rw [ha] at h
    cases h
  | some a =>
    rw [ha] at h
    exact ⟨a, rfl, h⟩

theorem backing_eq_none (ha : a.isMarketIssued = false) : a.backing = none := by
  rw [AssetObject.isMarketIssued, Option.isSome_eq_false_iff, Option.isNone_iff_eq_none] at ha
  rw [AssetObject.backing, ha]
  rfl

theorem exists_bitassetData (h : a.backing = some n) :
    ∃ data, a.bitassetData = some data ∧ data.options.shortBackingAsset = n := by
  rw [AssetObject.backing, Option.map_eq_some_iff] at h
  exact h

theorem Grounded.backing_core (h : s.Grounded) : s.backing coreAsset = none := by
  obtain ⟨a, ha, hdata⟩ := h.core
  rw [backing_of_find ha, AssetObject.backing, hdata]
  rfl

/-! ### What an operation can do -/

/-- The asset may back an asset of the issuer. -/
structure Admits (s : AssetState ρ) (issuer : AccountId) (n : AssetId) : Prop where
  found : ∃ b, s.assets.find? n = some b
  shallow : ∀ m, s.backing n = some m → s.backing m = none
  committee : issuer = committeeAccount → n = coreAsset ∨ s.backing n = some coreAsset

/-- What does not change when an asset keeps its backing. -/
def shape (a : AssetObject) : UInt8 × Option AssetId × Option Bool :=
  (a.precision, a.backing, a.bitassetData.map BitassetData.isPredictionMarket)

/-- A prediction market would have the precision of its backing asset. -/
def PrecisionKept (s : AssetState ρ) (a : AssetObject) : Prop :=
  ∀ data, a.bitassetData = some data → data.isPredictionMarket = true →
    ∃ b, s.assets.find? data.options.shortBackingAsset = some b ∧ a.precision = b.precision

/-- Why the new value of an asset is admitted. -/
inductive Admitted (s : AssetState ρ) (i : AssetId) (a' : AssetObject) : Prop
  | created (hnone : s.assets.find? i = none) (hbacked : ∀ n, a'.backing = some n → s.Admits a'.issuer n)
      (hprecision : s.PrecisionKept a')
  | kept (a : AssetObject) (ha : s.assets.find? i = some a) (hshape : shape a' = shape a)
      (hissuer : a'.issuer = a.issuer ∨ ∀ n, a'.issuer = committeeAccount → a'.backing = some n →
        n = coreAsset ∨ s.backing n = some coreAsset)
  | rebased (a : AssetObject) (n : AssetId) (ha : s.assets.find? i = some a) (hbacking : a'.backing = some n)
      (hold : a.backing ≠ none) (hsame : a'.precision = a.precision ∧ a'.issuer = a.issuer)
      (hfound : ∃ b, s.assets.find? n = some b)
      (hfork : hardforkCore922931Time < s.nextMaintenanceTime → n ≠ i ∧ s.PrecisionKept a' ∧
        (s.Grounded → s.Admits a'.issuer n) ∧
        (n ≠ coreAsset → ∀ j c, s.assets.find? j = some c → c.backing = some i →
          c.issuer ≠ committeeAccount ∧ s.backing n = none))

/-- **What an operation can do**: one asset gets a new value. -/
structure Change (s s' : AssetState ρ) : Prop where
  time_eq : s'.nextMaintenanceTime = s.nextMaintenanceTime
  asset : ∃ i a', (∀ j, s'.assets.find? j = if j = i then some a' else s.assets.find? j) ∧ s.Admitted i a'

theorem backing_of_shape (hshape : shape b = shape a) : b.backing = a.backing := congrArg (fun x ↦ x.2.1) hshape

theorem getAsset_eq_ok : s.getAsset i = .ok a ↔ s.assets.find? i = some a := by
  unfold getAsset
  cases s.assets.find? i <;> simp

theorem getBitassetData_eq_ok {data : BitassetData} :
    a.getBitassetData = .ok data ↔ a.bitassetData = some data := by
  unfold AssetObject.getBitassetData
  cases a.bitassetData <;> simp

theorem isMarketIssued_eq_false (h : ¬a.isMarketIssued = true) : a.backing = none :=
  backing_eq_none (by simpa using h)

theorem backing_of_data {data : BitassetData} (h : a.bitassetData = some data) :
    a.backing = some data.options.shortBackingAsset := by
  rw [AssetObject.backing, h]
  rfl

/-- Assets of the same shape have the same data, as far as it matters here. -/
theorem exists_data_of_shape {data : BitassetData} (hshape : shape b = shape a)
    (hdata : b.bitassetData = some data) : ∃ data₀, a.bitassetData = some data₀ ∧
      data₀.options.shortBackingAsset = data.options.shortBackingAsset ∧
      data₀.isPredictionMarket = data.isPredictionMarket := by
  have hbacking : a.backing = some data.options.shortBackingAsset :=
    (backing_of_shape hshape).symm.trans (backing_of_data hdata)
  obtain ⟨data₀, hdata₀, hshort⟩ := exists_bitassetData hbacking
  have hflag := congrArg (fun x ↦ x.2.2) hshape
  dsimp only [shape] at hflag
  rw [hdata, hdata₀] at hflag
  exact ⟨data₀, hdata₀, hshort, (Option.some.inj hflag).symm⟩

/-! ### `asset_create` -/

theorem checkBacking_admits {issuer : AccountId} {u : Unit} (h : s.checkBacking issuer n = .ok u) :
    s.Admits issuer n := by
  unfold checkBacking at h
  obtain ⟨b, hb, h⟩ := Except.bind_eq_ok.1 h
  rw [getAsset_eq_ok] at hb
  by_cases hissued : b.isMarketIssued = true
  · rw [if_pos hissued] at h
    obtain ⟨data, hdata, h⟩ := Except.bind_eq_ok.1 h
    obtain ⟨c, hc, h⟩ := Except.bind_eq_ok.1 h
    obtain ⟨_, hnot, h⟩ := Except.bind_eq_ok.1 h
    rw [getBitassetData_eq_ok] at hdata
    rw [getAsset_eq_ok] at hc
    rw [fcAssert_eq_ok] at hnot h
    have hbacking : s.backing n = some data.options.shortBackingAsset := by
      rw [backing_of_find hb, backing_of_data hdata]
    refine ⟨⟨b, hb⟩, fun m hm ↦ ?_, fun hissuer ↦ .inr ?_⟩
    · obtain rfl := Option.some.inj (hbacking.symm.trans hm)
      rw [backing_of_find hc]
      exact backing_eq_none (by simpa using hnot)
    · rw [hbacking, h.resolve_left fun hne ↦ hne hissuer]
  · rw [if_neg hissued, fcAssert_eq_ok] at h
    have hbacking : s.backing n = none := by
      rw [backing_of_find hb]
      exact isMarketIssued_eq_false hissued
    refine ⟨⟨b, hb⟩, fun m hm ↦ ?_, fun hissuer ↦ .inl (h.resolve_left fun hne ↦ hne hissuer)⟩
    rw [hbacking] at hm
    cases hm

theorem evaluateAssetCreate_eq_ok {op : AssetCreateOperation} {u : Unit} (h : s.evaluateAssetCreate op = .ok u) :
    s.checkBitassetOpts op = .ok () ∧ s.checkPredictionMarket op = .ok () := by
  unfold evaluateAssetCreate at h
  obtain ⟨_, -, h⟩ := Except.bind_eq_ok.1 h
  obtain ⟨_, -, h⟩ := Except.bind_eq_ok.1 h
  obtain ⟨_, -, h⟩ := Except.bind_eq_ok.1 h
  obtain ⟨_, -, h⟩ := Except.bind_eq_ok.1 h
  obtain ⟨_, -, h⟩ := Except.bind_eq_ok.1 h
  obtain ⟨_, -, h⟩ := Except.bind_eq_ok.1 h
  obtain ⟨_, hopts, h⟩ := Except.bind_eq_ok.1 h
  exact ⟨hopts, h⟩

theorem change_assetCreate [AssetMarket ρ] {op : AssetCreateOperation} (h : s.assetCreate op = .ok s') :
    Change s s' := by
  obtain ⟨_, hevaluate, h⟩ := Except.bind_eq_ok.1 h
  obtain rfl := Except.pure_eq_ok.1 h
  obtain ⟨hopts, hprediction⟩ := evaluateAssetCreate_eq_ok hevaluate
  refine ⟨rfl, s.assets.nextId, newAsset s.assets.nextId op, fun j ↦ s.assets.find?_create _ j, ?_⟩
  refine .created s.assets.find?_nextId (fun n hn ↦ ?_) fun data hdata hmarket ↦ ?_
  · obtain ⟨data, hdata, rfl⟩ := exists_bitassetData hn
    obtain ⟨opts, hop, rfl⟩ := Option.map_eq_some_iff.mp hdata
    rw [checkBitassetOpts, hop] at hopts
    obtain ⟨_, hbacking, -⟩ := Except.bind_eq_ok.1 hopts
    exact checkBacking_admits hbacking
  · obtain ⟨opts, hop, rfl⟩ := Option.map_eq_some_iff.mp hdata
    rw [checkPredictionMarket, if_pos (show op.isPredictionMarket = true from hmarket), hop] at hprediction
    obtain ⟨b, hb, hprecision⟩ := Except.bind_eq_ok.1 hprediction
    exact ⟨b, getAsset_eq_ok.1 hb, fcAssert_eq_ok.1 hprecision⟩

/-! ### `asset_update` and `asset_update_issuer` -/

theorem validateNewIssuer_admits {newIssuer : AccountId} {u : Unit} (h : s.validateNewIssuer a newIssuer = .ok u)
    (hcommittee : newIssuer = committeeAccount) (hn : a.backing = some n) :
    n = coreAsset ∨ s.backing n = some coreAsset := by
  obtain ⟨data, hdata, rfl⟩ := exists_bitassetData hn
  unfold validateNewIssuer at h
  obtain ⟨_, -, h⟩ := Except.bind_eq_ok.1 h
  have hissued : a.isMarketIssued = true := by
    rw [AssetObject.isMarketIssued, hdata]
    rfl
  rw [if_pos ⟨hissued, hcommittee⟩] at h
  obtain ⟨data', hdata', h⟩ := Except.bind_eq_ok.1 h
  obtain rfl := Option.some.inj (hdata.symm.trans (getBitassetData_eq_ok.1 hdata'))
  obtain ⟨b, hb, h⟩ := Except.bind_eq_ok.1 h
  rw [getAsset_eq_ok] at hb
  by_cases hbacking : b.isMarketIssued = true
  · rw [if_pos hbacking] at h
    obtain ⟨bdata, hbdata, h⟩ := Except.bind_eq_ok.1 h
    obtain ⟨_, -, h⟩ := Except.bind_eq_ok.1 h
    rw [fcAssert_eq_ok] at h
    right
    rw [backing_of_find hb, backing_of_data (getBitassetData_eq_ok.1 hbdata), h]
  · rw [if_neg hbacking, fcAssert_eq_ok] at h
    exact .inl h

theorem evaluateAssetUpdate_eq_ok [AssetMarket ρ] {op : AssetUpdateOperation}
    (h : s.evaluateAssetUpdate op = .ok a) :
    s.assets.find? op.assetToUpdate = some a ∧ s.checkNewIssuer a op.newIssuer = .ok () := by
  unfold evaluateAssetUpdate at h
  obtain ⟨a', ha', h⟩ := Except.bind_eq_ok.1 h
  obtain ⟨_, -, h⟩ := Except.bind_eq_ok.1 h
  obtain ⟨_, hissuer, h⟩ := Except.bind_eq_ok.1 h
  obtain ⟨_, -, h⟩ := Except.bind_eq_ok.1 h
  obtain ⟨_, -, h⟩ := Except.bind_eq_ok.1 h
  obtain ⟨_, -, h⟩ := Except.bind_eq_ok.1 h
  obtain ⟨_, -, h⟩ := Except.bind_eq_ok.1 h
  obtain ⟨_, -, h⟩ := Except.bind_eq_ok.1 h
  obtain ⟨_, -, h⟩ := Except.bind_eq_ok.1 h
  obtain ⟨_, -, h⟩ := Except.bind_eq_ok.1 h
  obtain ⟨_, -, h⟩ := Except.bind_eq_ok.1 h
  obtain rfl := Except.pure_eq_ok.1 h
  exact ⟨getAsset_eq_ok.1 ha', hissuer⟩

theorem find?_modify_eq {g : AssetObject → AssetObject} (ha : s.assets.find? i = some a) (j : AssetId) :
    (s.assets.modify i g).find? j = if j = i then some (g a) else s.assets.find? j := by
  rw [ObjectIndex.find?_modify]
  split_ifs with hj
  · rw [hj, ha]
    rfl
  · rfl

theorem shape_updatedAsset (op : AssetUpdateOperation) (a : AssetObject) : shape (updatedAsset op a) = shape a := by
  unfold shape updatedAsset AssetObject.backing
  cases a.bitassetData with
  | none => rfl
  | some data =>
    dsimp only [Option.map_some]
    split_ifs <;> rfl

theorem change_assetUpdate [AssetMarket ρ] {op : AssetUpdateOperation} (h : s.assetUpdate op = .ok s') :
    Change s s' := by
  obtain ⟨a, hevaluate, h⟩ := Except.bind_eq_ok.1 h
  obtain rfl := Except.pure_eq_ok.1 h
  obtain ⟨ha, hissuer⟩ := evaluateAssetUpdate_eq_ok hevaluate
  refine ⟨rfl, op.assetToUpdate, updatedAsset op a, find?_modify_eq ha, ?_⟩
  refine .kept a ha (shape_updatedAsset op a) ?_
  cases hnew : op.newIssuer with
  | none =>
    left
    rw [updatedAsset, hnew]
    rfl
  | some newIssuer =>
    right
    intro n hcommittee hn
    rw [hnew] at hissuer
    obtain ⟨_, -, hvalidate⟩ := Except.bind_eq_ok.1 hissuer
    have hshape := backing_of_shape (shape_updatedAsset op a)
    refine validateNewIssuer_admits hvalidate ?_ (hshape.symm.trans hn)
    rw [updatedAsset, hnew] at hcommittee
    exact hcommittee

theorem change_assetUpdateIssuer {op : AssetUpdateIssuerOperation} (h : s.assetUpdateIssuer op = .ok s') :
    Change s s' := by
  obtain ⟨a, ha, h⟩ := Except.bind_eq_ok.1 h
  obtain ⟨_, hvalidate, h⟩ := Except.bind_eq_ok.1 h
  obtain ⟨_, -, h⟩ := Except.bind_eq_ok.1 h
  obtain rfl := Except.pure_eq_ok.1 h
  rw [getAsset_eq_ok] at ha
  refine ⟨rfl, op.assetToUpdate, { a with issuer := op.newIssuer }, find?_modify_eq ha, ?_⟩
  exact .kept a ha rfl (.inr fun n hcommittee hn ↦ validateNewIssuer_admits hvalidate hcommittee hn)

/-! ### `asset_update_bitasset` -/

theorem checkCommitteeBacking_admits {u : Unit} (hb : s.assets.find? n = some b)
    (h : checkCommitteeBacking n b = .ok u) : n = coreAsset ∨ s.backing n = some coreAsset := by
  unfold checkCommitteeBacking at h
  by_cases hissued : b.isMarketIssued = true
  · rw [if_pos hissued] at h
    obtain ⟨data, hdata, h⟩ := Except.bind_eq_ok.1 h
    rw [fcAssert_eq_ok] at h
    right
    rw [backing_of_find hb, backing_of_data (getBitassetData_eq_ok.1 hdata), h]
  · rw [if_neg hissued, fcAssert_eq_ok] at h
    exact .inl h

/-- The assets that are backed by an asset whose backing changes. -/
theorem checkChildrenOfBitasset_eq_ok {u : Unit} (h : s.checkChildrenOfBitasset i n b true = .ok u)
    (hcore : n ≠ coreAsset) {j : AssetId} {c : AssetObject} (hc : s.assets.find? j = some c)
    (hchild : c.backing = some i) : c.issuer ≠ committeeAccount ∧ b.backing = none := by
  unfold checkChildrenOfBitasset at h
  rw [if_neg hcore] at h
  have hensures : ((s.children i).forM (checkChild n b true)).Ensures (fun _ ↦ True)
      fun _ ↦ ∀ p ∈ s.children i, p.2.issuer ≠ committeeAccount ∧ b.backing = none := by
    refine .forM fun p _ ↦ .of_forall fun _ hp ↦ ?_
    unfold checkChild at hp
    rw [if_pos rfl] at hp
    obtain ⟨_, -, hp⟩ := Except.bind_eq_ok.1 hp
    obtain ⟨_, hissuer, hp⟩ := Except.bind_eq_ok.1 hp
    rw [fcAssert_eq_ok] at hissuer hp
    exact ⟨hissuer, backing_eq_none (by simpa using hp)⟩
  refine hensures.of_ok h (j, c) ?_
  exact List.mem_filter.mpr ⟨ObjectIndex.find?_eq_some_iff.1 hc, decide_eq_true hchild⟩

theorem checkBackingBacking_shallow {u : Unit} (hground : s.Grounded) (hb : s.assets.find? n = some b)
    (h : s.checkBackingBacking b = .ok u) {m : AssetId} (hm : s.backing n = some m) : s.backing m = none := by
  rw [backing_of_find hb] at hm
  obtain ⟨data, hdata, rfl⟩ := exists_bitassetData hm
  have hissued : b.isMarketIssued = true := by
    rw [AssetObject.isMarketIssued, hdata]
    rfl
  unfold checkBackingBacking at h
  rw [if_pos hissued] at h
  obtain ⟨data', hdata', h⟩ := Except.bind_eq_ok.1 h
  obtain rfl := Option.some.inj (hdata.symm.trans (getBitassetData_eq_ok.1 hdata'))
  by_cases hcore : data.options.shortBackingAsset = coreAsset
  · rw [hcore]
    exact hground.backing_core
  · rw [if_pos hcore] at h
    obtain ⟨c, hc, h⟩ := Except.bind_eq_ok.1 h
    rw [backing_of_find (getAsset_eq_ok.1 hc)]
    exact backing_eq_none (by simpa using fcAssert_eq_ok.1 h)

/-- What the checks of the issuer say: the committee's assets rest on CORE, and a new backing that is not CORE spares
the assets that the asset backs. -/
theorem checkIssuerBacking_eq_ok {u : Unit} (hb : s.assets.find? n = some b)
    (h : s.checkIssuerBacking i a n b = .ok u) :
    (a.issuer = committeeAccount → n = coreAsset ∨ s.backing n = some coreAsset) ∧
      (n ≠ coreAsset → ∀ j c, s.assets.find? j = some c → c.backing = some i →
        c.issuer ≠ committeeAccount ∧ s.backing n = none) := by
  rw [backing_of_find hb]
  unfold checkIssuerBacking at h
  by_cases hissuer : a.issuer = committeeAccount
  · rw [if_pos hissuer] at h
    obtain ⟨_, hcommittee, h⟩ := Except.bind_eq_ok.1 h
    have hrests := checkCommitteeBacking_admits hb hcommittee
    rw [backing_of_find hb] at hrests
    refine ⟨fun _ ↦ hrests, fun hcore j c hc hchild ↦ ?_⟩
    -- an asset that is not CORE and on which the committee can rely is market-issued
    have hissued : b.isMarketIssued = true := by
      by_contra hnot
      rw [isMarketIssued_eq_false hnot] at hrests
      cases hrests.resolve_left hcore
    rw [if_pos hissued] at h
    exact checkChildrenOfBitasset_eq_ok h hcore hc hchild
  · rw [if_neg hissuer] at h
    refine ⟨fun hcommittee ↦ absurd hcommittee hissuer, fun hcore j c hc hchild ↦ ?_⟩
    rw [if_pos hcore] at h
    exact checkChildrenOfBitasset_eq_ok h hcore hc hchild

theorem evaluateAssetUpdateBitasset_eq_ok [AssetMarket ρ] {op : AssetUpdateBitassetOperation}
    (h : s.evaluateAssetUpdateBitasset op = .ok a) :
    s.assets.find? op.assetToUpdate = some a ∧
      ∃ data, a.bitassetData = some data ∧ s.checkBackingChange op a data = .ok () := by
  unfold evaluateAssetUpdateBitasset at h
  obtain ⟨a', ha', h⟩ := Except.bind_eq_ok.1 h
  obtain ⟨_, -, h⟩ := Except.bind_eq_ok.1 h
  obtain ⟨_, -, h⟩ := Except.bind_eq_ok.1 h
  obtain ⟨data, hdata, h⟩ := Except.bind_eq_ok.1 h
  obtain ⟨_, -, h⟩ := Except.bind_eq_ok.1 h
  obtain ⟨_, hchange, h⟩ := Except.bind_eq_ok.1 h
  obtain ⟨_, -, h⟩ := Except.bind_eq_ok.1 h
  obtain rfl := Except.pure_eq_ok.1 h
  exact ⟨getAsset_eq_ok.1 ha', data, getBitassetData_eq_ok.1 hdata, hchange⟩

theorem change_assetUpdateBitasset [AssetMarket ρ] {op : AssetUpdateBitassetOperation}
    (h : s.assetUpdateBitasset op = .ok s') : Change s s' := by
  obtain ⟨a, hevaluate, h⟩ := Except.bind_eq_ok.1 h
  obtain ⟨market, -, h⟩ := Except.bind_eq_ok.1 h
  obtain rfl := Except.pure_eq_ok.1 h
  obtain ⟨ha, data, hdata, hchange⟩ := evaluateAssetUpdateBitasset_eq_ok hevaluate
  refine ⟨rfl, op.assetToUpdate, _, find?_modify_eq ha, ?_⟩
  have hold : a.backing = some data.options.shortBackingAsset := backing_of_data hdata
  unfold checkBackingChange at hchange
  by_cases hsame : op.newOptions.shortBackingAsset = data.options.shortBackingAsset
  · refine .kept a ha ?_ (.inl rfl)
    unfold shape AssetObject.backing
    rw [hdata]
    dsimp only [Option.map_some]
    rw [hsame]
  · rw [if_pos hsame] at hchange
    obtain ⟨_, -, hchange⟩ := Except.bind_eq_ok.1 hchange
    obtain ⟨b, hb, hchange⟩ := Except.bind_eq_ok.1 hchange
    rw [getAsset_eq_ok] at hb
    refine .rebased a op.newOptions.shortBackingAsset ha ?_ ?_ ⟨rfl, rfl⟩ ⟨b, hb⟩ fun hfork ↦ ?_
    · rw [AssetObject.backing, hdata]
      rfl
    · rw [hold]
      exact Option.some_ne_none _
    · rw [if_pos hfork] at hchange
      unfold checkNewBacking at hchange
      obtain ⟨_, hself, hchange⟩ := Except.bind_eq_ok.1 hchange
      obtain ⟨_, hprecision, hchange⟩ := Except.bind_eq_ok.1 hchange
      obtain ⟨_, hissuer, hshallow⟩ := Except.bind_eq_ok.1 hchange
      obtain ⟨hcommittee, hchildren⟩ := checkIssuerBacking_eq_ok hb hissuer
      refine ⟨fcAssert_eq_ok.1 hself, fun data' hdata' hmarket ↦ ⟨b, ?_⟩, fun hground ↦ ?_, hchildren⟩
      · dsimp only at hdata'
        rw [hdata] at hdata'
        obtain rfl := Option.some.inj hdata'
        refine ⟨hb, ?_⟩
        unfold checkPrecision at hprecision
        rw [if_pos (show data.isPredictionMarket = true from hmarket), fcAssert_eq_ok] at hprecision
        exact hprecision
      · exact ⟨⟨b, hb⟩, fun m hm ↦ checkBackingBacking_shallow hground hb hshallow hm, hcommittee⟩

/-- **What an operation can do.** -/
theorem change_of_apply [AssetMarket ρ] {op : AssetOperation} (h : s.apply op = .ok s') : Change s s' := by
  cases op with
  | create op => exact change_assetCreate h
  | update op => exact change_assetUpdate h
  | updateBitasset op => exact change_assetUpdateBitasset h
  | updateIssuer op => exact change_assetUpdateIssuer h

/-! ### One step -/

/-- Backing assets exist, and CORE is not market-issued, after a change. -/
theorem Grounded.change (h : s.Grounded) (hchange : Change s s') : s'.Grounded := by
  obtain ⟨i, a', hfind, hadmitted⟩ := hchange.asset
  have hkeep : ∀ j b, s.assets.find? j = some b → ∃ b', s'.assets.find? j = some b' := by
    intro j b hb
    rw [hfind]
    split_ifs
    · exact ⟨a', rfl⟩
    · exact ⟨b, hb⟩
  constructor
  · obtain ⟨a, ha, hdata⟩ := h.core
    rw [hfind]
    split_ifs with hi
    · subst hi
      refine ⟨a', rfl, ?_⟩
      have hnone : a.backing = none := by
        rw [AssetObject.backing, hdata]
        rfl
      cases hadmitted with
      | created hfree =>
        rw [hfree] at ha
        cases ha
      | kept b hb hshape =>
        obtain rfl := Option.some.inj (ha.symm.trans hb)
        have hbacking : a'.backing = none := (backing_of_shape hshape).trans hnone
        rwa [AssetObject.backing, Option.map_eq_none_iff] at hbacking
      | rebased b n hb _ hold =>
        obtain rfl := Option.some.inj (ha.symm.trans hb)
        exact absurd hnone hold
    · exact ⟨a, ha, hdata⟩
  · intro j c n hc hn
    rw [hfind] at hc
    split_ifs at hc with hj
    · obtain rfl := Option.some.inj hc
      obtain ⟨b, hb⟩ : ∃ b, s.assets.find? n = some b := by
        cases hadmitted with
        | created _ hbacked => exact (hbacked n hn).found
        | kept b hb hshape => exact h.backed i b n hb ((backing_of_shape hshape).symm.trans hn)
        | rebased b m hb hbacking _ _ hfound =>
          obtain rfl := Option.some.inj (hbacking.symm.trans hn)
          exact hfound
      exact hkeep n b hb
    · obtain ⟨b, hb⟩ := h.backed j c n hc hn
      exact hkeep n b hb

section Step

variable {a' : AssetObject}

theorem Admitted.precision_eq (h : s.Admitted i a') (ha : s.assets.find? i = some a) :
    a'.precision = a.precision := by
  cases h with
  | created hnone =>
    rw [hnone] at ha
    cases ha
  | kept b hb hshape =>
    obtain rfl := Option.some.inj (ha.symm.trans hb)
    exact congrArg Prod.fst hshape
  | rebased b n hb _ _ hsame =>
    obtain rfl := Option.some.inj (ha.symm.trans hb)
    exact hsame.1

theorem backing_change (hfind : ∀ j, s'.assets.find? j = if j = i then some a' else s.assets.find? j) :
    s'.backing = Function.update s.backing i a'.backing := by
  funext j
  by_cases hj : j = i
  · subst hj
    rw [Function.update_self, backing_of_find]
    rw [hfind, if_pos rfl]
  · rw [Function.update_of_ne hj, backing, hfind, if_neg hj]
    rfl

theorem backing_kept (ha : s.assets.find? i = some a) (hshape : shape a' = shape a) :
    a'.backing = s.backing i := by
  rw [backing_of_find ha]
  exact backing_of_shape hshape

/-- Nothing is backed by an asset that does not exist. -/
theorem Grounded.not_backed (h : s.Grounded) (hnone : s.assets.find? i = none) (x : AssetId) :
    s.backing x ≠ some i := by
  intro hx
  obtain ⟨c, hc, hci⟩ := exists_of_backing hx
  obtain ⟨b, hb⟩ := h.backed x c i hc hci
  rw [hnone] at hb
  cases hb

/-- **No market-issued asset comes to stand behind two others.** -/
theorem BackingSound.shallow_change (h : s.BackingSound) (hground : s.Grounded)
    (hfork : hardforkCore922931Time < s.nextMaintenanceTime) (hadmitted : s.Admitted i a') :
    Shallow (Function.update s.backing i a'.backing) := by
  cases hadmitted with
  | created hnone hbacked _ =>
    cases hn : a'.backing with
    | none =>
      have hback : s.backing i = none := by
        rw [backing, hnone]
        rfl
      rw [← hback, Function.update_eq_self]
      exact h.shallow
    | some n =>
      have hadmits := hbacked n hn
      have hne : n ≠ i := by
        rintro rfl
        obtain ⟨b, hb⟩ := hadmits.found
        rw [hnone] at hb
        cases hb
      refine h.shallow.update hne (.inr (hground.not_backed hnone)) fun m hm ↦ ?_
      exact ⟨hadmits.shallow m hm, hground.not_backed hnone⟩
  | kept a ha hshape _ =>
    rw [backing_kept ha hshape, Function.update_eq_self]
    exact h.shallow
  | rebased a n ha hbacking hold _ _ hforked =>
    obtain ⟨hne, -, hadmits, hchildren⟩ := hforked hfork
    rw [hbacking]
    refine h.shallow.update hne (.inl ?_) fun m hm ↦ ⟨(hadmits hground).shallow m hm, fun x hx ↦ ?_⟩
    · rwa [backing_of_find ha]
    -- a market-issued asset is not CORE, and then the asset backs nothing
    · have hcore : n ≠ coreAsset := by
        rintro rfl
        rw [hground.backing_core] at hm
        cases hm
      obtain ⟨c, hc, hci⟩ := exists_of_backing hx
      rw [(hchildren hcore x c hc hci).2] at hm
      cases hm

/-- **The committee's assets keep resting on CORE.** -/
theorem BackingSound.committee_change (h : s.BackingSound) (hground : s.Grounded)
    (hfork : hardforkCore922931Time < s.nextMaintenanceTime) (hadmitted : s.Admitted i a')
    (hfind : ∀ j, s'.assets.find? j = if j = i then some a' else s.assets.find? j) {j : AssetId} {c : AssetObject}
    (hc : s'.assets.find? j = some c) (hissuer : c.issuer = committeeAccount) (hn : c.backing = some n) :
    n = coreAsset ∨ s'.backing n = some coreAsset := by
  have hbefore : n = coreAsset ∨ s.backing n = some coreAsset := by
    rw [hfind] at hc
    split_ifs at hc with hj
    · obtain rfl := Option.some.inj hc
      cases hadmitted with
      | created _ hbacked => exact (hbacked n hn).committee hissuer
      | kept a ha hshape hkept =>
        rcases hkept with hkept | hkept
        · refine h.committee i a n ha (hkept.symm.trans hissuer) ?_
          exact (backing_of_shape hshape).symm.trans hn
        · exact hkept n hissuer hn
      | rebased a m ha hbacking _ _ _ hforked =>
        obtain ⟨-, -, hadmits, -⟩ := hforked hfork
        obtain rfl := Option.some.inj (hbacking.symm.trans hn)
        exact (hadmits hground).committee hissuer
    · exact h.committee j c n hc hissuer hn
  rcases hbefore with hcore | hcore
  · exact .inl hcore
  rw [backing_change hfind]
  by_cases hni : n = i
  · subst hni
    rw [Function.update_self]
    cases hadmitted with
    | created hnone _ _ =>
      rw [backing, hnone] at hcore
      cases hcore
    | kept a ha hshape _ =>
      rw [backing_kept ha hshape]
      exact .inr hcore
    | rebased a m ha hbacking _ _ _ hforked =>
      -- a change of what backs the backing asset of the committee's asset
      obtain ⟨hne, -, -, hchildren⟩ := hforked hfork
      right
      rw [hbacking]
      by_contra hm
      have hcoreM : m ≠ coreAsset := fun hm' ↦ hm (congrArg some hm')
      rw [hfind] at hc
      split_ifs at hc with hj
      · obtain rfl := Option.some.inj hc
        exact hne (Option.some.inj (hbacking.symm.trans hn))
      · exact (hchildren hcoreM j c hc hn).1 hissuer
  · rw [Function.update_of_ne hni]
    exact .inr hcore

/-- **Prediction markets keep the precision of their backing assets.** -/
theorem BackingSound.precision_change (h : s.BackingSound)
    (hfork : hardforkCore922931Time < s.nextMaintenanceTime) (hadmitted : s.Admitted i a')
    (hfind : ∀ j, s'.assets.find? j = if j = i then some a' else s.assets.find? j) {j : AssetId} {c : AssetObject}
    {data : BitassetData} (hc : s'.assets.find? j = some c) (hdata : c.bitassetData = some data)
    (hmarket : data.isPredictionMarket = true) :
    ∃ b, s'.assets.find? data.options.shortBackingAsset = some b ∧ c.precision = b.precision := by
  have hbefore : ∃ b, s.assets.find? data.options.shortBackingAsset = some b ∧ c.precision = b.precision := by
    rw [hfind] at hc
    split_ifs at hc with hj
    · obtain rfl := Option.some.inj hc
      cases hadmitted with
      | created _ _ hprecision => exact hprecision data hdata hmarket
      | kept a ha hshape _ =>
        obtain ⟨data₀, hdata₀, hshort, hflag⟩ := exists_data_of_shape hshape hdata
        obtain ⟨b, hb, hprecision⟩ := h.precision i a data₀ ha hdata₀ (hflag.trans hmarket)
        rw [hshort] at hb
        exact ⟨b, hb, (congrArg Prod.fst hshape).trans hprecision⟩
      | rebased a m ha hbacking _ _ _ hforked => exact (hforked hfork).2.1 data hdata hmarket
    · exact h.precision j c data hc hdata hmarket
  obtain ⟨b, hb, hprecision⟩ := hbefore
  rw [hfind]
  split_ifs with hi
  · rw [hi] at hb
    exact ⟨a', rfl, hprecision.trans (hadmitted.precision_eq hb).symm⟩
  · exact ⟨b, hb, hprecision⟩

/-- **One step.** -/
theorem BackingSound.change (h : s.BackingSound) (hground : s.Grounded)
    (hfork : hardforkCore922931Time < s.nextMaintenanceTime) (hchange : Change s s') : s'.BackingSound := by
  obtain ⟨i, a', hfind, hadmitted⟩ := hchange.asset
  have hshallow : Shallow s'.backing := by
    rw [backing_change hfind]
    exact h.shallow_change hground hfork hadmitted
  exact ⟨hshallow.acyclic, hshallow,
    fun j c n hc hissuer hn ↦ h.committee_change hground hfork hadmitted hfind hc hissuer hn,
    fun j c data hc hdata hmarket ↦ h.precision_change hfork hadmitted hfind hc hdata hmarket⟩

end Step

/-! ### Runs -/

/-- What happens elsewhere: blocks, other operations and maintenance leave alone the issuer, the precision and the
backing of every asset, and the next maintenance is not earlier. -/
structure Elsewhere (s s' : AssetState ρ) : Prop where
  assets : ∀ i, (s'.assets.find? i).map (fun a ↦ (a.issuer, shape a)) =
    (s.assets.find? i).map fun a ↦ (a.issuer, shape a)
  time_le : s.nextMaintenanceTime ≤ s'.nextMaintenanceTime

/-- A step: an operation that goes through, or something else. -/
def Step [AssetMarket ρ] (s s' : AssetState ρ) : Prop := (∃ op, s.apply op = .ok s') ∨ Elsewhere s s'

namespace Elsewhere

theorem find_eq (h : Elsewhere s s') (hb : s'.assets.find? i = some b) :
    ∃ a, s.assets.find? i = some a ∧ b.issuer = a.issuer ∧ shape b = shape a := by
  have hassets := h.assets i
  rw [hb] at hassets
  obtain ⟨a, ha, hab⟩ := Option.map_eq_some_iff.mp hassets.symm
  exact ⟨a, ha, (congrArg Prod.fst hab).symm, (congrArg Prod.snd hab).symm⟩

theorem exists_find (h : Elsewhere s s') (ha : s.assets.find? i = some a) :
    ∃ b, s'.assets.find? i = some b ∧ shape b = shape a := by
  have hassets := h.assets i
  rw [ha] at hassets
  obtain ⟨b, hb, hab⟩ := Option.map_eq_some_iff.mp hassets
  exact ⟨b, hb, congrArg Prod.snd hab⟩

theorem backing_eq (h : Elsewhere s s') : s'.backing = s.backing := by
  funext i
  have hassets := congrArg (Option.map fun x ↦ x.2.2.1) (h.assets i)
  rw [Option.map_map, Option.map_map] at hassets
  have hjoin := congrArg Option.join hassets
  rw [← Option.bind_id_eq_join, ← Option.bind_id_eq_join, Option.bind_map, Option.bind_map] at hjoin
  exact hjoin

end Elsewhere

theorem Grounded.elsewhere (h : s.Grounded) (helse : Elsewhere s s') : s'.Grounded := by
  constructor
  · obtain ⟨a, ha, hdata⟩ := h.core
    obtain ⟨b, hb, hshape⟩ := helse.exists_find ha
    refine ⟨b, hb, ?_⟩
    have hbacking := backing_of_shape hshape
    rw [AssetObject.backing, AssetObject.backing, hdata] at hbacking
    exact Option.map_eq_none_iff.mp hbacking
  · intro i c n hc hn
    obtain ⟨a, ha, -, hshape⟩ := helse.find_eq hc
    obtain ⟨b, hb⟩ := h.backed i a n ha ((backing_of_shape hshape).symm.trans hn)
    obtain ⟨b', hb', -⟩ := helse.exists_find hb
    exact ⟨b', hb'⟩

theorem BackingSound.elsewhere (h : s.BackingSound) (helse : Elsewhere s s') : s'.BackingSound := by
  refine ⟨?_, ?_, fun i c n hc hissuer hn ↦ ?_, fun i c data hc hdata hmarket ↦ ?_⟩
  · rw [helse.backing_eq]
    exact h.acyclic
  · rw [helse.backing_eq]
    exact h.shallow
  · obtain ⟨a, ha, hissuer', hshape⟩ := helse.find_eq hc
    rw [helse.backing_eq]
    exact h.committee i a n ha (hissuer'.symm.trans hissuer)
      ((backing_of_shape hshape).symm.trans hn)
  · obtain ⟨a, ha, -, hshape⟩ := helse.find_eq hc
    obtain ⟨data₀, hdata₀, hshort, hflag⟩ := exists_data_of_shape hshape hdata
    obtain ⟨b, hb, hprecision⟩ := h.precision i a data₀ ha hdata₀ (hflag.trans hmarket)
    obtain ⟨b', hb', hshape'⟩ := helse.exists_find hb
    rw [hshort] at hb'
    exact ⟨b', hb', (congrArg Prod.fst hshape).trans (hprecision.trans (congrArg Prod.fst hshape').symm)⟩

/-! ### The genesis -/

/-- CORE is not market-issued, and every market-issued asset is backed by CORE. -/
def AllOnCore (assets : ObjectIndex AssetObject) : Prop :=
  (∃ a, assets.find? coreAsset = some a ∧ a.bitassetData = none) ∧
    ∀ i a n, assets.find? i = some a → a.backing = some n → n = coreAsset

theorem AllOnCore.create {assets : ObjectIndex AssetObject} (h : AllOnCore assets)
    (ha : ∀ n, a.backing = some n → n = coreAsset) : AllOnCore (assets.create a) := by
  obtain ⟨⟨core, hcore, hdata⟩, hall⟩ := h
  refine ⟨⟨core, ObjectIndex.find?_create_of_some hcore a, hdata⟩, fun i c n hc hn ↦ ?_⟩
  rw [ObjectIndex.find?_create] at hc
  split_ifs at hc
  · obtain rfl := Option.some.inj hc
    exact ha n hn
  · exact hall i c n hc hn

/-- An id that is not used. -/
theorem AllOnCore.skip {assets : ObjectIndex AssetObject} (h : AllOnCore assets) (a : AssetObject) :
    AllOnCore ((assets.create a).remove assets.nextId) := by
  obtain ⟨⟨core, hcore, hdata⟩, hall⟩ := h
  have hsame : ∀ i c, ((assets.create a).remove assets.nextId).find? i = some c → assets.find? i = some c := by
    intro i c hc
    rw [ObjectIndex.find?_remove, ObjectIndex.find?_create] at hc
    split_ifs at hc
    exact hc
  refine ⟨⟨core, ?_, hdata⟩, fun i c n hc hn ↦ hall i c n (hsame i c hc) hn⟩
  rw [ObjectIndex.find?_remove_of_ne _ (ObjectIndex.lt_nextId_of_find? hcore).ne]
  exact ObjectIndex.find?_create_of_some hcore a

theorem allOnCore_initAssets (core : AssetObject) (numSpecialAssets : ℕ) (initialAssets : List InitialAsset) :
    AllOnCore (initAssets core numSpecialAssets initialAssets) := by
  have hcore : AllOnCore ((∅ : ObjectIndex AssetObject).create { core with bitassetData := none }) := by
    refine ⟨⟨_, rfl, rfl⟩, fun i a n ha hn ↦ ?_⟩
    rw [ObjectIndex.find?_create] at ha
    split_ifs at ha
    · obtain rfl := Option.some.inj ha
      cases hn
    · cases ha
  have hreserved : ∀ (l : List ℕ) (assets : ObjectIndex AssetObject), AllOnCore assets →
      AllOnCore (l.foldl (fun assets _ ↦ (assets.create core).remove assets.nextId) assets) := by
    intro l
    induction l with
    | nil => exact fun assets h ↦ h
    | cons _ l ih => exact fun assets h ↦ ih _ (h.skip core)
  unfold initAssets
  generalize hassets : (List.range (numSpecialAssets - 1)).foldl
    (fun assets _ ↦ (assets.create core).remove assets.nextId)
    ((∅ : ObjectIndex AssetObject).create { core with bitassetData := none }) = assets
  have h : AllOnCore assets := hassets ▸ hreserved _ _ hcore
  dsimp only
  clear hassets
  induction initialAssets generalizing assets with
  | nil => exact h
  | cons a l ih =>
    refine ih _ (h.create fun n hn ↦ ?_)
    obtain ⟨data, hdata, rfl⟩ := exists_bitassetData hn
    obtain ⟨options, -, rfl⟩ := Option.map_eq_some_iff.mp hdata
    rfl

theorem grounded_of_allOnCore (h : AllOnCore s.assets) : s.Grounded := by
  refine ⟨h.1, fun i a n ha hn ↦ ?_⟩
  obtain ⟨core, hcore, -⟩ := h.1
  rw [h.2 i a n ha hn]
  exact ⟨core, hcore⟩

/-- Every state of the chain is grounded, hard fork or not. -/
theorem grounded_of_reachable [AssetMarket ρ] {g : AssetState ρ} (hg : AllOnCore g.assets)
    (h : Relation.ReflTransGen Step g s) : s.Grounded := by
  induction h with
  | refl => exact grounded_of_allOnCore hg
  | tail _ hstep ih =>
    rcases hstep with ⟨op, hop⟩ | helse
    · exact ih.change (change_of_apply hop)
    · exact ih.elsewhere helse

/-- **The backing graph stays sound**: from any state of the chain after the hard fork in which it is sound, in every
state that operations on assets, and whatever else happens, can reach. -/
theorem backingSound_of_reachable [AssetMarket ρ] {core : AssetObject} {numSpecialAssets : ℕ}
    {initialAssets : List InitialAsset} {g s₀ : AssetState ρ}
    (hgenesis : g.assets = initAssets core numSpecialAssets initialAssets)
    (hreach : Relation.ReflTransGen Step g s₀) (hsound : s₀.BackingSound)
    (hfork : hardforkCore922931Time < s₀.nextMaintenanceTime) (hrun : Relation.ReflTransGen Step s₀ s) :
    s.BackingSound := by
  have hcore : AllOnCore g.assets := by
    rw [hgenesis]
    exact allOnCore_initAssets core numSpecialAssets initialAssets
  suffices h : s.BackingSound ∧ s.Grounded ∧ hardforkCore922931Time < s.nextMaintenanceTime from h.1
  induction hrun with
  | refl => exact ⟨hsound, grounded_of_reachable hcore hreach, hfork⟩
  | tail _ hstep ih =>
    obtain ⟨ihsound, ihground, ihfork⟩ := ih
    rcases hstep with ⟨op, hop⟩ | helse
    · have hchange := change_of_apply hop
      exact ⟨ihsound.change ihground ihfork hchange, ihground.change hchange, by rwa [hchange.time_eq]⟩
    · exact ⟨ihsound.elsewhere helse, ihground.elsewhere helse, ihfork.trans_le helse.time_le⟩

end AssetState

/-! ### An asset and a prediction market on it -/

/-- A market in which nothing happens. -/
instance : AssetMarket Unit where
  currentSupply _ _ := 0
  hasSettlement _ _ := false
  assetCreated _ _ := ()
  cancelSettleOrders _ _ := ()
  bitassetUpdated _ _ _ _ := .ok ()

/-- Options without permissions. -/
def plainOptions : AssetOptions := { issuerPermissions := 0, flags := 0, coreExchangeRate := ⟨{}, {}⟩ }

/-- CORE, and the rest of a chain after the hard forks. -/
def coreOnly : AssetState Unit where
  assets := initAssets { symbol := "PLC", precision := 5, issuer := nullAccount, options := plainOptions } 1 []
  accounts := FlatSet.ofList [committeeAccount, 7]
  market := ()
  headBlockTime := 1600000000
  nextMaintenanceTime := 1600003600
  maximumAssetWhitelistAuthorities := 10
  blockInterval := 5

/-- A market-issued asset. -/
def createBacked (issuer : AccountId) (symbol : String) (backing : AssetId) (isPredictionMarket : Bool) :
    AssetCreateOperation :=
  { issuer, symbol, precision := 5, commonOptions := plainOptions, isPredictionMarket
    bitassetOpts := some
      { feedLifetimeSec := 3600, forceSettlementDelaySec := 3600, shortBackingAsset := backing } }

/-- Two market-issued assets, one on top of the other; the issuer of the lower one is the committee in the end. -/
theorem backingSound_of_reachable_stacked : ∃ s : AssetState Unit,
    s.backing 2 = some 1 ∧ s.backing 1 = some coreAsset ∧ s.BackingSound := by
  obtain ⟨s₁, s₂, s₃, h₁, h₂, h₃, hupper, hlower⟩ : ∃ s₁ s₂ s₃ : AssetState Unit,
      coreOnly.apply (.create (createBacked 7 "USD" 0 false)) = .ok s₁ ∧
      s₁.apply (.create (createBacked 7 "WINS" 1 true)) = .ok s₂ ∧
      s₂.apply (.updateIssuer ⟨7, 1, committeeAccount⟩) = .ok s₃ ∧
      s₃.backing 2 = some 1 ∧ s₃.backing 1 = some coreAsset :=
    ⟨_, _, _, rfl, rfl, rfl, rfl, rfl⟩
  have hsound : coreOnly.BackingSound := by
    have hbacking : ∀ i, coreOnly.backing i = none := by
      intro i
      unfold AssetState.backing coreOnly initAssets
      dsimp only
      rw [List.foldl_nil, List.range_zero, List.foldl_nil, ObjectIndex.find?_create]
      split_ifs <;> rfl
    have hshallow : Shallow coreOnly.backing := by
      intro i j k hij
      rw [hbacking] at hij
      cases hij
    refine ⟨hshallow.acyclic, hshallow, fun i a n ha _ hn ↦ ?_, fun i a data ha hdata _ ↦ ?_⟩
    · have hnone := hbacking i
      rw [AssetState.backing_of_find ha, hn] at hnone
      cases hnone
    · have hnone := hbacking i
      rw [AssetState.backing_of_find ha, AssetState.backing_of_data hdata] at hnone
      cases hnone
  have hrun : Relation.ReflTransGen AssetState.Step coreOnly s₃ :=
    ((Relation.ReflTransGen.single (.inl ⟨_, h₁⟩)).tail (.inl ⟨_, h₂⟩)).tail (.inl ⟨_, h₃⟩)
  exact ⟨s₃, hupper, hlower, AssetState.backingSound_of_reachable rfl .refl hsound (by decide) hrun⟩

end Playchain
