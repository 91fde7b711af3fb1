import Playchain.Schema.Database

/-!
# Dissemination of the rake

At maintenance the rake that players have paid is split between the inviters of the player, the
witnesses of the game and the owner of the room, and credited to vesting balances. The inviters'
share climbs the chain of inviters; what is left at the depth limit is parked on the next inviter
(`pendingParentInvitationFees`) and disseminated from there in the next pass.
-/

namespace Playchain

/-- `PLAYCHAIN_MAXIMUM_INVITERS_DEPTH` of the production configuration. -/
def maximumInvitersDepth : ℕ := 10

/-- `cut_fee` -/
def cutFee (a : ℤ) (p : PercentType) : ℤ :=
  if a < 1 ∨ p < 1 then 0
  else if hundredPercent ≤ p then a
  else a * p / hundredPercent

/-- `deposit_context` with its mark: what a deposit is for. -/
structure DepositContext where
  type : PlaychainDepositType
  getter : AccountId
  metadata : String
  assetId : AssetId

/-- The object whose `balance` field remembers the vesting balance. -/
inductive CashbackParent where
  | player (id : PlayerId)
  | room (id : RoomId)
  | witness (id : GameWitnessId)

namespace Database

/-- The vesting balance an object remembers. -/
def cashbackBalance (d : Database) : CashbackParent → Except ChainError (Option VestingBalanceId)
  | .player id => do return (← d.playerById id).balance
  | .room id => do return (← d.roomById id).balance
  | .witness id => do return (← d.gameWitnessById id).balance

/-- Remember a vesting balance. -/
def setCashbackBalance (d : Database) (id : VestingBalanceId) : CashbackParent → Database
  | .player p => { d with players := d.players.modify p fun obj ↦ { obj with balance := some id } }
  | .room r => { d with rooms := d.rooms.modify r fun obj ↦ { obj with balance := some id } }
  | .witness w =>
    { d with gameWitnesses := d.gameWitnesses.modify w fun obj ↦ { obj with balance := some id } }

/-- `deposit_lazy_vesting` with a coin-days policy: reuse the given balance if it has the required
owner and period, else create a new one and return its id. -/
def depositLazyVesting (d : Database) (balance : Option VestingBalanceId) (amount : ℤ)
    (reqVestingSeconds : ℕ) (reqOwner : AccountId) :
    Except ChainError (Option VestingBalanceId × Database) :=
  let vesting : VestingBalanceObject :=
    { owner := reqOwner, balance := amount, vestingSeconds := reqVestingSeconds }
  let created : Option VestingBalanceId × Database :=
    (some d.vestingBalances.nextId,
      { d with vestingBalances := d.vestingBalances.create vesting })
  if amount = 0 then return (none, d)
  else
    match balance with
    | none => return created
    | some id => do
      let vbo ← orUnableToFind (d.vestingBalances.find? id)
      if vbo.owner = reqOwner ∧ vbo.vestingSeconds = reqVestingSeconds then
        return (none, { d with vestingBalances := d.vestingBalances.modify id fun v ↦
          { v with balance := v.balance + amount } })
      else return created

end Database

/-- `deposit_cashback` -/
def depositCashback (d : Database) (ctx : DepositContext) (room : RoomId) (parent : CashbackParent)
    (owner : AccountId) (amount : ℤ) : Except ChainError Database :=
  if amount < 1 then return d
  else do
    let d := d.pushAppliedOperation (.playchainDepositCashback ctx.type ctx.getter owner
      ⟨amount, ctx.assetId⟩ ctx.metadata)
    let r ← d.roomById room
    let pendingRake ← r.pendingRake.sub ⟨amount, r.pendingRake.assetId⟩
    let d := { d with
      rooms := d.rooms.modify room (fun r ↦ { r with pendingRake := pendingRake })
        (RoomObject.key_setPendingRake pendingRake) }
    let balance ← d.cashbackBalance parent
    let (newBalance, d) ←
      d.depositLazyVesting balance amount d.cashbackVestingPeriodSeconds owner
    match newBalance with
    | some id => return d.setCashbackBalance id parent
    | none => return d

/-- Add up balances until the sum no longer exceeds the threshold; the source returns early there. -/
def addBalances (d : Database) (threshold : ℤ) :
    ℤ → List (Option VestingBalanceId) → Except ChainError (ℤ × Bool)
  | result, [] => return (result, false)
  | result, none :: rest => addBalances d threshold result rest
  | result, some id :: rest => do
    let vbo ← orUnableToFind (d.vestingBalances.find? id)
    if result + vbo.balance ≤ threshold then return (result + vbo.balance, true)
    else addBalances d threshold (result + vbo.balance) rest

/-- `get_total_balance` -/
def getTotalBalance (d : Database) (player : PlayerObject) : Except ChainError ℤ := do
  let threshold := d.parameters.playerReferrerBalanceMaxThreshold
  let result := d.getBalance player.account coreAsset
  if result ≤ threshold then return result
  let rooms := d.rooms.toList.filter fun r ↦ r.2.owner = player.account
  let playchainVbs := player.balance ::
    ((d.gameWitnesses.findKey? player.account).bind fun w ↦ w.2.balance) ::
    rooms.map fun r ↦ r.2.balance
  let (result, done) ← addBalances d threshold result playchainVbs
  if done then return result
  if d.parameters.takeIntoAccountGrapheneBalances then
    let others := d.vestingBalances.toList.filter fun v ↦
      v.2.owner = player.account ∧ some v.1 ∉ playchainVbs
    return (← addBalances d threshold result (others.map fun v ↦ some v.1)).1
  else return result

/-- Park what is left for the inviters above the depth limit. -/
def parkParentFees (d : Database) (ctx : DepositContext) (room : RoomId) (inviter : PlayerId)
    (amount : ℤ) : Database :=
  let key : DepositKey := toLex (ctx.assetId, toLex (ctx.getter, ctx.metadata))
  { d with players := d.players.modify inviter fun obj ↦
      let stats := (obj.pendingParentInvitationFees.find? room).getD ∅
      let stats := stats.insert key ((stats.find? key).getD 0 + amount)
      { obj with pendingParentInvitationFees := obj.pendingParentInvitationFees.insert room stats } }

/-- An inviter's own cut and what goes on to the parents, by the inviter's balance. -/
def inviterCuts (parameters : PlaychainParameters) (balance amount : ℤ) : ℤ × ℤ :=
  let parentsCut := cutFee amount parameters.playerReferrerParentPercentOfFee
  let maxMyCut := amount - parentsCut
  if balance < parameters.playerReferrerBalanceMinThreshold then (0, parentsCut + maxMyCut)
  else if balance < parameters.playerReferrerBalanceMaxThreshold then
    let myCut := maxMyCut * balance / parameters.playerReferrerBalanceMaxThreshold
    (myCut, parentsCut + (maxMyCut - myCut))
  else (maxMyCut, parentsCut)

/-- `disseminate_for_inviters`: the amount that is left over. -/
def disseminateForInviters (ctx : DepositContext) (room : RoomId) :
    ℕ → Database → PlayerId → ℤ → Except ChainError (Database × ℤ)
  | depth, d, inviter, amount =>
    if inviter = nullPlayer ∨ amount < 1 then return (d, amount)
    else
      match depth with
      | 0 => return (parkParentFees d ctx room inviter amount, 0)
      | depth + 1 => do
        let obj ← d.playerById inviter
        let parentsCut := cutFee amount d.parameters.playerReferrerParentPercentOfFee
        let (d, parentsCut) ← (
          if 0 < amount - parentsCut then do
            let balance ← getTotalBalance d obj
            let (myCut, parentsCut) := inviterCuts d.parameters balance amount
            let d ← depositCashback d ctx room (.player inviter) obj.account myCut
            pure (d, parentsCut)
          else pure (d, parentsCut))
        disseminateForInviters ctx room depth d obj.inviter parentsCut

/-- The dissemination of one parked amount. What the inviters leave over (`pending_amount` of the
source) is not used; the room owner is credited with the whole parked amount. -/
def depositParentFee (player : PlayerId) (room : RoomId) (d : Database) (ds : DepositKey × ℤ) :
    Except ChainError Database := do
  let key := ofLex ds.1
  let ctx : DepositContext :=
    { type := .inviter
      getter := (ofLex key.2).1
      metadata := (ofLex key.2).2
      assetId := key.1 }
  let r ← d.roomById room
  let (d, _) ← disseminateForInviters ctx room maximumInvitersDepth d player ds.2
  depositCashback d ctx room (.room room) r.owner ds.2

/-- The witnesses' share, in equal parts; the first witness gets the remainder. -/
def depositWitnesses (d : Database) (ctx : DepositContext) (room : RoomId)
    (witnesses : FlatSet GameWitnessId) (witnessCut : ℤ) : Except ChainError Database := do
  let oneCut := witnessCut / witnesses.size
  let (d, witnessCut) ← (
    if 0 < oneCut then
      witnesses.elements.foldlM (fun (s : Database × ℤ) id ↦ do
        let w ← s.1.gameWitnessById id
        let d ← depositCashback s.1 ctx room (.witness id) w.account oneCut
        return (d, s.2 - oneCut)) (d, witnessCut)
    else pure (d, witnessCut))
  if 0 < witnessCut then
    let id ← orMissing witnesses.elements.head?
    let w ← d.gameWitnessById id
    depositCashback d ctx room (.witness id) w.account witnessCut
  else return d

/-- The dissemination of one pending fee of a player. -/
def depositPendingFee (inviter : PlayerId) (d : Database) (data : PlayerPendingFeeData) :
    Except ChainError Database := do
  let ctx (type : PlaychainDepositType) : DepositContext :=
    { type := type, getter := data.getter, metadata := data.metadata, assetId := data.assetId }
  let r ← d.roomById data.room
  let invitersCut := cutFee data.amount d.parameters.playerReferrerPercentOfFee
  let witnessCut := cutFee data.amount d.parameters.gameWitnessPercentOfFee
  let gameOwnerCut := data.amount - invitersCut - witnessCut
  let (d, left) ← disseminateForInviters (ctx .inviter) data.room maximumInvitersDepth d inviter
    invitersCut
  let gameOwnerCut := gameOwnerCut + left
  let (d, gameOwnerCut) ← (
    if 0 < data.witnesses.size then do
      let d ← depositWitnesses d (ctx .witness) data.room data.witnesses witnessCut
      pure (d, gameOwnerCut)
    else pure (d, gameOwnerCut + witnessCut))
  depositCashback d (ctx .room) data.room (.room data.room) r.owner gameOwnerCut

/-- The turn of one player. -/
def depositPlayerFees (d : Database) (player : PlayerId) : Except ChainError Database := do
  let obj ← d.playerById player
  let d ← obj.pendingParentInvitationFees.toList.foldlM (fun d byRoom ↦
    byRoom.2.toList.foldlM (depositParentFee player byRoom.1) d) d
  let d := { d with players := d.players.modify player fun p ↦
    { p with pendingParentInvitationFees := ∅ } }
  let obj ← d.playerById player
  let d ← obj.pendingFees.foldlM (depositPendingFee obj.inviter) d
  return { d with players := d.players.modify player fun p ↦ { p with pendingFees := [] } }

/-- `deposit_pending_fees` -/
def depositPendingFees (d : Database) : Except ChainError Database :=
  let players := d.players.toList.filter fun p ↦ !p.2.isNotPending
  (players.map Prod.fst).foldlM depositPlayerFees d

end Playchain
