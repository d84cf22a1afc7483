import FpvIndexer.Proof.Handlers

namespace FpvIndexer.Proof.FeeAuctions
open Relational AuctionableTokenIndexer Handlers

/-- The row is that of one auction of the log's token, held on the contract the tokens left. -/
def GenuineAuction (services : AuctionServices) (log : TransferLog) (row : FilecoinPayFeeAuction) : Prop :=
  ∃ chainTx token recipient requested,
    services.getTransaction log.transactionHash = .ok chainTx ∧
    services.decodeFunctionData chainTx.input = .ok (.burnForFees token recipient requested) ∧
    chainTx.toAddress.map Address.toLowerCase = some log.fromAddress.toLowerCase ∧
    token.toLowerCase = log.address.toLowerCase ∧
    row.toFilecoinPayFeeAuctionInput = auctionInput log chainTx log.address

def StoresOnlyGenuineAuctions (services : AuctionServices) (db : DB) (logs : List TransferLog) : Prop :=
  ∀ past log rest before after, logs = past ++ log :: rest → updateDb services db past = .ok before →
    handleLog services before log = .ok after →
    ∀ row ∈ after.filecoinPayFeeAuction.rows, row ∉ before.filecoinPayFeeAuction.rows →
      GenuineAuction services log row

/-- Calldata that decodes as `burnForFees` was sent to the contract the tokens left, for that token. -/
def BurnsOnItsContract (services : AuctionServices) (log : TransferLog) : Prop :=
  ∀ chainTx token recipient requested, services.getTransaction log.transactionHash = .ok chainTx →
    services.decodeFunctionData chainTx.input = .ok (.burnForFees token recipient requested) →
    chainTx.toAddress.map Address.toLowerCase = some log.fromAddress.toLowerCase ∧
      token.toLowerCase = log.address.toLowerCase

theorem safeDecode_eq_some {services : AuctionServices} {hex : Hex} {call : FilecoinPayV1Call} :
    safeFilecoinPayV1Decode services hex = some call ↔ services.decodeFunctionData hex = .ok call := by
  unfold safeFilecoinPayV1Decode
  cases services.decodeFunctionData hex <;> simp

theorem handleLog_cases {services : AuctionServices} {db next : DB} {log : TransferLog}
    (handled : handleLog services db log = .ok next) :
    (next = db ∧ ∀ chainTx token recipient requested, services.getTransaction log.transactionHash = .ok chainTx →
      services.decodeFunctionData chainTx.input ≠ .ok (.burnForFees token recipient requested)) ∨
    ∃ chainTx token recipient requested row, services.getTransaction log.transactionHash = .ok chainTx ∧
      services.decodeFunctionData chainTx.input = .ok (.burnForFees token recipient requested) ∧
      next.filecoinPayFeeAuction.rows = db.filecoinPayFeeAuction.rows ++ [row] ∧
      row ∉ db.filecoinPayFeeAuction.rows ∧
      row.toFilecoinPayFeeAuctionInput = auctionInput log chainTx token := by
  unfold handleLog at handled
  obtain ⟨chainTx, got, handled⟩ := bind_eq_ok.mp handled
  split at handled
  · rename_i token recipient requested decoded
    obtain ⟨_, _, row, rfl, rows, fresh, input, -⟩ := insertAuction_spec handled
    exact Or.inr ⟨chainTx, token, recipient, requested, row, got, safeDecode_eq_some.mp decoded, rows, fresh, input⟩
  · rename_i other
    refine Or.inl ⟨(pure_eq_ok.mp handled).symm, ?_⟩
    intro chainTx' token recipient requested got' decoded
    rw [got] at got'
    cases got'
    exact other token recipient requested (safeDecode_eq_some.mpr decoded)

theorem storesOnlyGenuineAuctions_iff (services : AuctionServices) (db final : DB) (logs : List TransferLog)
    (handled : updateDb services db logs = .ok final) :
    StoresOnlyGenuineAuctions services db logs ↔ ∀ log ∈ logs, BurnsOnItsContract services log := by
  constructor
  · intro genuine log member chainTx token recipient requested got decoded
    obtain ⟨past, rest, whole⟩ := List.append_of_mem member
    have split := handled
    rw [updateDb, whole, foldlM_append_eq_ok] at split
    obtain ⟨before, reached, onward⟩ := split
    rw [List.foldlM_cons, bind_eq_ok] at onward
    obtain ⟨after, step, -⟩ := onward
    rcases handleLog_cases step with ⟨-, never⟩ | ⟨_, _, _, _, row, -, -, rows, fresh, -⟩
    · exact absurd decoded (never chainTx token recipient requested got)
    · obtain ⟨chainTx', token', _, _, got', decoded', addressed, own, -⟩ :=
        genuine past log rest before after whole reached step row (by simp [rows]) fresh
      rw [got] at got'
      cases got'
      rw [decoded] at decoded'
      cases decoded'
      exact ⟨addressed, own⟩
  · intro own past log rest before after whole reached step row stored fresh
    rcases handleLog_cases step with ⟨rfl, -⟩ | ⟨chainTx, token, recipient, requested, added, got, decoded, rows, -, input⟩
    · exact absurd stored fresh
    · rw [rows, List.mem_append, List.mem_singleton] at stored
      obtain rfl : row = added := stored.resolve_left fresh
      obtain ⟨addressed, same⟩ := own log (by simp [whole]) chainTx token recipient requested got decoded
      refine ⟨chainTx, token, recipient, requested, got, decoded, addressed, same, ?_⟩
      rw [input, auctionInput, auctionInput, same]

section Foreign

def hexValue (digits : List Char) : Nat :=
  digits.foldl (fun n c => 16 * n + if c.isDigit then c.toNat - 48 else c.toNat - 87) 0

def decodeBurnForFees (hex : Hex) : Except Failure FilecoinPayV1Call :=
  let digits := hex.toList
  let word := fun n => (digits.drop (10 + 64 * n)).take 64
  if digits.take 10 = "0x1a257300".toList ∧ digits.length = 10 + 3 * 64 then
    .ok (.burnForFees (String.ofList ('0' :: 'x' :: (word 0).drop 24)) (String.ofList ('0' :: 'x' :: (word 1).drop 24))
      (hexValue (word 2)))
  else .error (.rejected "AbiFunctionSignatureNotFoundError")

def filecoinPay : Address := "0x1111111111111111111111111111111111111111"

def foreignContract : Address := "0x4444444444444444444444444444444444444444"

def withdrawal : TransferLog where
  address := "0x2222222222222222222222222222222222222222"
  blockNumber := 120
  logIndex := 3
  transactionHash := "0xabc"
  fromAddress := filecoinPay
  toAddress := "0x3333333333333333333333333333333333333333"
  value := 1000000

def burnTransaction (recipient : Address) : Transaction where
  toAddress := some recipient
  input := "0x1a257300" ++ "000000000000000000000000" ++ "2222222222222222222222222222222222222222" ++
    "000000000000000000000000" ++ "3333333333333333333333333333333333333333" ++
    "00000000000000000000000000000000000000000000000000000000000f4240"
  value := 5

def burnSentTo (recipient : Address) : AuctionServices where
  getTransaction _ := .ok (burnTransaction recipient)
  decodeFunctionData := decodeBurnForFees

theorem storesOnlyGenuineAuctions_withdrawal :
    StoresOnlyGenuineAuctions (burnSentTo filecoinPay) (DB.seeded hundredEpochs) [withdrawal] ↔
      ∀ log ∈ [withdrawal], BurnsOnItsContract (burnSentTo filecoinPay) log := by
  obtain ⟨final, handled⟩ := exists_of_isOk
    (x := updateDb (burnSentTo filecoinPay) (DB.seeded hundredEpochs) [withdrawal]) (by decide +kernel)
  exact storesOnlyGenuineAuctions_iff _ _ final _ handled

theorem foreign_call_stored :
    ¬ StoresOnlyGenuineAuctions (burnSentTo foreignContract) (DB.seeded hundredEpochs) [withdrawal] := by
  intro genuine
  obtain ⟨after, step⟩ := exists_of_isOk
    (x := handleLog (burnSentTo foreignContract) (DB.seeded hundredEpochs) withdrawal) (by decide +kernel)
  have decoded : (burnSentTo foreignContract).decodeFunctionData (burnTransaction foreignContract).input =
      .ok (.burnForFees "0x2222222222222222222222222222222222222222"
        "0x3333333333333333333333333333333333333333" 1000000) := by decide +kernel
  rcases handleLog_cases step with ⟨-, never⟩ | ⟨_, _, _, _, row, -, -, rows, fresh, -⟩
  · exact never (burnTransaction foreignContract) _ _ _ rfl decoded
  · obtain ⟨chainTx, _, _, _, got, -, addressed, -⟩ :=
      genuine [] withdrawal [] _ after rfl rfl step row (by simp [rows]) fresh
    cases got
    exact absurd addressed (by decide +kernel)

end Foreign
end FpvIndexer.Proof.FeeAuctions
