import SmartSfp.Ipc.Message
import SmartSfp.Wire.RingFrame

/-!
# State — what the daemon holds, and its request handlers one at a time

Each `lock().await` of the source is a `get` of the state here: with one request handled at a time
nothing comes between two of them.  The bodies the handlers run under the provider lock are
functions of their own, shared with the interleaved model.
-/

namespace SmartSfp

namespace Cryptod

open Lib Exec Ipc

/-- Every provider stored is a boxed `AesGcmRingProvider`; the clock is read by the caller. -/
structure CryptodState where
  provider : AesGcmRingProvider
  activeAlgo : AlgoId
  activeKey : Option KeyHandle
  packetsSealed : UInt64
  packetsOpened : UInt64
  cryptoErrors : UInt64
  deriving DecidableEq

namespace CryptodState

def new : Except CryptoError CryptodState := do
  let defaultAlgo := AlgoId.aes256Gcm
  let provider ← AesGcmRingProvider.new defaultAlgo
  return {
    provider := provider
    activeAlgo := defaultAlgo
    activeKey := none
    packetsSealed := 0
    packetsOpened := 0
    cryptoErrors := 0 }

/-- `packets_sealed.fetch_add(1)`, which wraps. -/
def countSealed (st : CryptodState) : CryptodState :=
  { st with packetsSealed := st.packetsSealed + 1 }

def countOpened (st : CryptodState) : CryptodState :=
  { st with packetsOpened := st.packetsOpened + 1 }

def countError (st : CryptodState) : CryptodState :=
  { st with cryptoErrors := st.cryptoErrors + 1 }

end CryptodState

def providerName (algo : AlgoId) : String :=
  let name := match algo with
    | .aes128Gcm => "aes-128-gcm"
    | .aes256Gcm => "aes-256-gcm"
    | .ozDst1105 => "ozdst1105"
  s!"ring/{name}"

/-! ## Rotation -/

inductive SelfTestError where
  | crypto (error : CryptoError)
  | mismatch
  deriving DecidableEq, Repr

def SelfTestError.display : SelfTestError → String
  | crypto error => error.display
  | mismatch => "self-test roundtrip mismatch"

/-- `b"acm-uz-self-test"`. -/
def selfTestText : Octets :=
  [0x61, 0x63, 0x6d, 0x2d, 0x75, 0x7a, 0x2d, 0x73, 0x65, 0x6c, 0x66, 0x2d, 0x74, 0x65, 0x73, 0x74]

variable {σ : Type}

def selfTest (provider : CryptoProvider) (key : KeyHandle) : Exec σ SelfTestError Unit := do
  let algo := provider.algorithm
  let nonce ← vec 0 algo.nonceLen
  let pt := selfTestText
  let sealedBuf ← vec 0 (← addUsize pt.length algo.tagLen)
  let (n, sealed) ← callTry .crypto sealedBuf (provider.seal_ key nonce [] pt)
  let backBuf ← vec 0 pt.length
  let body ← slice sealed 0 n
  let (_, back) ← callTry .crypto backBuf (provider.open_ key nonce [] body)
  failIf (back ≠ pt) .mismatch

/-- What a rotation stores. -/
structure Commit where
  newProvider : AesGcmRingProvider
  newAlgo : AlgoId
  newKey : KeyHandle
  deriving DecidableEq

/-- The part of the `RotateKey` arm before the first store.  No lock is taken. -/
def rotatePrepare (crate : Gcm.Crate) (p : RotateKeyParams) : Exec σ Response Commit := do
  let newAlgo ← okOr (AlgoId.fromU8 p.algo)
    (.error 422 s!"unknown algo: 0x{Wire.hexByte p.algo}")
  let newProvider ← (match newAlgo with
    | .aes128Gcm | .aes256Gcm =>
      ofExcept (fun e => Response.error 500 e.display) (AesGcmRingProvider.new newAlgo)
    | .ozDst1105 => fail (.error 501 "O'z DSt 1105 provider not yet implemented"))
  let newKey ← ofExcept (fun e => Response.error 422 e.display)
    (KeyHandle.new p.keyId newAlgo p.material.data)
  mapErr (fun e => Response.error 500 s!"new key/provider failed self-test: {e.display}")
    (selfTest (newProvider.toProvider crate) newKey)
  return { newProvider := newProvider, newAlgo := newAlgo, newKey := newKey }

/-! ## The bodies under the provider lock -/

/-- `handle_encrypt` from the provider lock on.  `p.aad` is not used. -/
def sealRequest (provider : CryptoProvider) (key : KeyHandle) (p : EncryptParams) :
    Exec CryptodState Response Response := do
  let algo := provider.algorithm
  let got := p.nonce.data.length
  failIf (got ≠ algo.nonceLen)
    (.error 422 s!"nonce length mismatch: got {got}, want {algo.nonceLen} for {algo.debug}")
  let need ← Wire.frameLen p.plaintext.data.length p.nonce.data.length algo.tagLen
  let outBuf ← vec 0 need
  let (result, out) ← callWith outBuf
    (Wire.seal_ provider key key.id p.nonce.data 0 p.plaintext.data)
  match result with
  | .ok n =>
    debugAssert (n = need)
    modify CryptodState.countSealed
    return .ciphertext out
  | .error e =>
    modify CryptodState.countError
    return .error 500 s!"seal failed: {e.display}"

/-- `handle_decrypt` from the provider lock on. -/
def openRequest (provider : CryptoProvider) (key : KeyHandle) (p : DecryptParams) :
    Exec CryptodState Response Response := do
  let outBuf ← vec 0 p.frame.data.length
  let (result, out) ← callWith outBuf (Wire.open_ provider key p.frame.data)
  match result with
  | .ok n =>
    modify CryptodState.countOpened
    return .plaintext (out.take n)
  | .error e =>
    modify CryptodState.countError
    let code := match e with
      | .crypto .authFailed => 401
      | _ => 422
    return .error code s!"open failed: {e.display}"

/-! ## The handlers -/

variable (crate : Gcm.Crate)

def report (elapsed : UInt64) (algo : AlgoId) (st : CryptodState) : StatusReport where
  version := "0.1.0"
  running := true
  uptimeS := elapsed
  activeProvider := providerName algo
  activeKeyId := st.activeKey.map KeyHandle.id
  packetsSealed := st.packetsSealed
  packetsOpened := st.packetsOpened
  cryptoErrors := st.cryptoErrors

def handleEncrypt (p : EncryptParams) : Exec CryptodState Response Response := do
  let st ← get
  let key ← okOr st.activeKey (.error 409 "no active key — call rotate_key first")
  let st ← get
  sealRequest (st.provider.toProvider crate) key p

def handleDecrypt (p : DecryptParams) : Exec CryptodState Response Response := do
  let st ← get
  let key ← okOr st.activeKey (.error 409 "no active key")
  let st ← get
  openRequest (st.provider.toProvider crate) key p

/-- `elapsed` is what `started_at.elapsed()` reads. -/
def handle (elapsed : UInt64) (req : Request) : Exec CryptodState Empty Response :=
  returning (match req with
    | .getStatus => do
      let algo := (← get).activeAlgo
      let st ← get
      return .status (report elapsed algo st)
    | .rotateKey p => do
      let c ← rotatePrepare crate p
      modify fun st => { st with provider := c.newProvider }
      modify fun st => { st with activeAlgo := c.newAlgo }
      modify fun st => { st with activeKey := some c.newKey }
      return .ok
    | .setPolicy _ => return .ok
    | .encrypt p => handleEncrypt crate p
    | .decrypt p => handleDecrypt crate p)

end Cryptod

end SmartSfp
