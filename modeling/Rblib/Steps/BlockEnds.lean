import Rblib.Payload.Checkpoint
import Rblib.Pipelines.Executor

/-! The steps at the two ends of a block: the sequencer transactions of `steps/optimism.rs` and the
builder transaction of `steps/builder.rs`. Signing, signature recovery and the size estimate of a
transaction come from the node and are parameters. An error is the data of its message. -/

namespace Rblib.Steps

open Platform PlatformTypes Payload Pipelines

variable {P τ ε β : Type} [PlatformTypes P]

/-- What a platform with the execution bounds of Optimism gets from the node; `τ` are the transactions of
the payload attributes. -/
structure OptimismPrologue (P τ ε : Type) [PlatformTypes P] where
  tryIntoRecovered : τ → Option (Transaction P)
  isDeposit : Transaction P → Bool
  txEstimatedSizeFjordBytes : Bytes → ℕ
  limitsExt : ε → OpLimitsExt

inductive PrologueError (P τ : Type) [PlatformTypes P]
  | notAtTop (existingTransactionsCount : ℕ)
  | notApplied (tx : τ) (error : ExecutionError P)
  | gasLimit (gasUsed limit : ℕ)
  | daLimit (daBytesUsed limit : ℕ)

namespace OptimismPrologue

def daBytesUsed (op : OptimismPrologue P τ ε) (c : Checkpoint P) : ℕ :=
  match c.result with
  | none => 0
  | some result => ((result.source.transactions.filter fun tx => !op.isDeposit tx).map fun tx =>
      op.txEstimatedSizeFjordBytes (encoded2718 tx)).sum

def apply (op : OptimismPrologue P τ ε) (tx : τ) (id now : ℕ) (payload : Checkpoint P) :
    Except (ExecutionError P) (Checkpoint P) :=
  match op.tryIntoRecovered tx with
  | none => .error .invalidSignature
  | some tx => payload.apply (.transaction tx) id now

def applyAll (op : OptimismPrologue P τ ε) (limits : Limits ε) (fresh : ℕ → ℕ × ℕ) :
    List τ → ℕ → ℕ → Checkpoint P → Except (PrologueError P τ) (Checkpoint P)
  | [], _, _, payload => .ok payload
  | tx :: txs, gasUsed, daBytesUsed, payload =>
    match op.apply tx (fresh txs.length).1 (fresh txs.length).2 payload with
    | .error e => .error (.notApplied tx e)
    | .ok payload =>
      if gasUsed + payload.gasUsed > limits.gasLimit then
        .error (.gasLimit (gasUsed + payload.gasUsed) limits.gasLimit)
      else
        match (op.limitsExt limits.ext).maxBlockDa with
        | none => op.applyAll limits fresh txs (gasUsed + payload.gasUsed)
            (daBytesUsed + op.daBytesUsed payload) payload
        | some maxBlockDa =>
          if daBytesUsed + op.daBytesUsed payload > maxBlockDa then
            .error (.daLimit (daBytesUsed + op.daBytesUsed payload) maxBlockDa)
          else
            op.applyAll limits fresh txs (gasUsed + payload.gasUsed) (daBytesUsed + op.daBytesUsed payload) payload

def step (op : OptimismPrologue P τ ε) (transactions : List τ) (ctx : StepContext ε) (fresh : ℕ → ℕ × ℕ)
    (payload : Checkpoint P) : ControlFlow (Checkpoint P) (PrologueError P τ) :=
  let existingTransactionsCount := (payload.history.flatMap Checkpoint.transactions).length
  if existingTransactionsCount > 0 then .fail (.notAtTop existingTransactionsCount)
  else
    match op.applyAll ctx.limits fresh transactions 0 0 payload with
    | .error e => .fail e
    | .ok payload =>
      if payload.depth > 0 then
        .ok (payload.barrier (fresh transactions.length).1 (fresh transactions.length).2)
      else .ok payload

end OptimismPrologue

structure TransactionRequest where
  chainId : ℕ
  nonce : ℕ
  gasLimit : ℕ
  maxFeePerGas : ℕ
  maxPriorityFeePerGas : ℕ
  toAddress : Address
  input : Bytes

/-- `chainId` and `baseFee` are read from the block, `buildSigned` signs with the key of the step. -/
structure BuilderEpilogue (P β : Type) [PlatformTypes P] where
  signer : Address
  required : Bool := false
  messageFn : BlockContext P → String
  chainId : BlockContext P → ℕ
  baseFee : BlockContext P → ℕ
  buildSigned : TransactionRequest → Except β (Transaction P)

inductive EpilogueError (P β : Type) [PlatformTypes P]
  | nonce (error : ProviderError)
  | signing (error : β)
  | execution (error : ExecutionError P)

def totalCostFloorPerToken : ℕ := 10

def estimateGasForTx (message : Bytes) : ℕ :=
  let zeroBytes := message.countP fun byte => byte == 0
  let nonzeroBytes := message.countP fun byte => byte != 0
  let zeroCost := zeroBytes * 4
  let nonzeroCost := nonzeroBytes * 16
  let tokensInCalldata := zeroBytes + nonzeroBytes * 4
  let floorGas := 21000 + tokensInCalldata * totalCostFloorPerToken
  max (zeroCost + nonzeroCost + 21000) floorGas

namespace BuilderEpilogue

def request (self : BuilderEpilogue P β) (block : BlockContext P) (signerNonce : ℕ) : TransactionRequest where
  chainId := self.chainId block
  nonce := signerNonce
  gasLimit := estimateGasForTx (utf8Bytes (self.messageFn block))
  maxFeePerGas := self.baseFee block
  maxPriorityFeePerGas := 0
  toAddress := 0
  input := utf8Bytes (self.messageFn block)

def append (self : BuilderEpilogue P β) (block : BlockContext P) (id now : ℕ) (payload : Checkpoint P) :
    Except (EpilogueError P β) (Checkpoint P) := do
  let signerNonce ← (payload.nonceOf self.signer).mapError .nonce
  let signedTx ← (self.buildSigned (self.request block signerNonce)).mapError .signing
  (payload.apply (.transaction signedTx) id now).mapError .execution

def step (self : BuilderEpilogue P β) (block : BlockContext P) (id now : ℕ) (payload : Checkpoint P) :
    ControlFlow (Checkpoint P) (EpilogueError P β) :=
  match self.append block id now payload with
  | .ok newPayload => .ok newPayload
  | .error error => if self.required then .fail error else .ok payload

end BuilderEpilogue

end Rblib.Steps
