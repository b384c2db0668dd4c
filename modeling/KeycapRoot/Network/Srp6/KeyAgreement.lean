import Mathlib.Data.Int.ModEq
import Mathlib.Tactic.Ring
import KeycapRoot.Lib.Outcome
import KeycapRoot.Network.Srp6.Utility

/-!
# Key agreement

The server computes `(A v^u)^b` and the client `(B - 3 g^x)^(a + u x)`, each with reductions of its
own. With `v = g^x` both are `g^(b (a + u x))` modulo `N`, and both sides hash the same `A` and `B`
for `u`; so they get the same session key, if there is one (`session_keys_agree`). With `Wow` there
is none where the secret is a single byte with zeros below it, as for `b = 0`, where it is 1: the
behaviour of both sides is undefined then.
-/

namespace KeycapRoot.Network.Srp6

structure GroupParameter where
  N : List UInt8
  g : UInt64

/-! ## The two sides -/

structure Server where
  N : Int
  g : Int
  v : Int
  b : Int
  B : Int
  A : Int := 0
  compliance : Compliance
  deriving DecidableEq, Repr

structure Client where
  compliance : Compliance
  N : Int
  g : Int
  I : List UInt8
  a : Int
  A : Int
  deriving DecidableEq, Repr

section Sides

variable (botan : Botan)

namespace Server

/-- The private constructor, with `N` and `g` as integers. -/
def ofInts (N g v b : Int) (compliance : Compliance) : Server where
  N
  g
  v
  b
  B := (3 * v + botan.powerMod g b N) % N
  compliance

def new (groupParameter : GroupParameter) (v : Int) (compliance : Compliance) (b : Int) : Server :=
  ofInts botan (botan.bigInt groupParameter.N) groupParameter.g.toNat v b compliance

def publicEphemeralValue (s : Server) : Int := s.B

def sessionKey (A : Int) (s : Server) : Outcome Server Int :=
  if A % s.N = 0 ∨ A ≤ 0 then
    .error (.exception "Ephemeral value of A must not be 0 (mod N) and not be <= 0!") s
  else
    let s := { s with A }
    let u := sha1Hash botan s.compliance [.bigInt A, .bigInt s.B]
    let S := botan.powerMod (A * botan.powerMod s.v u s.N) s.b s.N
    match s.compliance with
    | .wow => .ofOption ((shaInterleave botan S).map fun K => botan.decode K.reverse) s
    | .rfc5054 => .ok (sha1Hash botan s.compliance [.bigInt S]) s

def proof (clientProof sessionKey : Int) (s : Server) : Int :=
  sha1Hash botan s.compliance [.bigInt s.A, .bigInt clientProof, .bigInt sessionKey]

end Server

namespace Client

def new (groupParameter : GroupParameter) (username : List UInt8) (compliance : Compliance)
    (a : Int) : Client where
  compliance
  N := botan.bigInt groupParameter.N
  g := groupParameter.g.toNat
  I := username
  a
  A := botan.powerMod groupParameter.g.toNat a (botan.bigInt groupParameter.N)

def publicEphemeralValue (c : Client) : Int := c.A

/-- The call changes nothing; it has no value where its behaviour is undefined. -/
def sessionKey (B : Int) (username password : List UInt8) (salt : Int) (c : Client) : Option Int :=
  let x := generateX botan username password salt c.compliance
  let u := sha1Hash botan c.compliance [.bigInt c.A, .bigInt B]
  let S := botan.powerMod (B - 3 * botan.powerMod c.g x c.N) (c.a + u * x) c.N
  match c.compliance with
  | .wow => (shaInterleave botan S).map fun K => botan.decode K.reverse
  | .rfc5054 => some (sha1Hash botan c.compliance [.bigInt S])

end Client

/-! ## The key of a secret -/

/-- The session key that a secret is hashed to, if there is one. -/
def keyOfSecret (compliance : Compliance) (S : Int) : Option Int :=
  match compliance with
  | .wow => (shaInterleave botan S).map fun K => botan.decode K.reverse
  | .rfc5054 => some (sha1Hash botan .rfc5054 [.bigInt S])

theorem keyOfSecret_eq_none_iff {compliance : Compliance} {S : Int} :
    keyOfSecret botan compliance S = none ↔
      compliance = .wow ∧ trimmed (encodeFlip botan S) = [] := by
  cases compliance with
  | wow => simp [keyOfSecret, shaInterleave_eq_none_iff]
  | rfc5054 => simp [keyOfSecret]

theorem Client.sessionKey_eq (c : Client) (B : Int) (username password : List UInt8) (salt : Int) :
    c.sessionKey botan B username password salt =
      keyOfSecret botan c.compliance (botan.powerMod
        (B - 3 * botan.powerMod c.g (generateX botan username password salt c.compliance) c.N)
        (c.a + sha1Hash botan c.compliance [.bigInt c.A, .bigInt B] *
          generateX botan username password salt c.compliance) c.N) := by
  unfold Client.sessionKey
  cases hcompliance : c.compliance with
  | wow => simp only [keyOfSecret]
  | rfc5054 => simp only [keyOfSecret]

/-- The check of `session_key` on an `A`, and what follows where it passes. -/
theorem Server.sessionKey_cases (s : Server) (A : Int) :
    (A ≤ 0 ∨ s.N ∣ A) ∧ (∃ what, s.sessionKey botan A = .error (.exception what) s) ∨
      ¬ (A ≤ 0 ∨ s.N ∣ A) ∧ s.sessionKey botan A =
        .ofOption (keyOfSecret botan s.compliance (botan.powerMod (A * botan.powerMod s.v
          (sha1Hash botan s.compliance [.bigInt A, .bigInt s.B]) s.N) s.b s.N)) { s with A } := by
  have hcheck : (A % s.N = 0 ∨ A ≤ 0) ↔ (A ≤ 0 ∨ s.N ∣ A) := by
    rw [or_comm, Int.dvd_iff_emod_eq_zero]
  unfold Server.sessionKey
  by_cases h : A % s.N = 0 ∨ A ≤ 0
  · rw [if_pos h]
    exact Or.inl ⟨hcheck.1 h, _, rfl⟩
  · refine Or.inr ⟨fun hrefused => h (hcheck.2 hrefused), ?_⟩
    rw [if_neg h]
    cases hcompliance : s.compliance with
    | wow => simp only [keyOfSecret]
    | rfc5054 => simp only [keyOfSecret, Outcome.ofOption_some]

end Sides

/-! ## Agreement -/

section Agreement

variable (botan : Botan)

theorem powerMod_modEq {N e : Int} (hN : 0 < N) (he : 0 ≤ e) (base : Int) :
    botan.powerMod base e N ≡ base ^ e.toNat [ZMOD N] := by
  rw [botan.powerMod_eq base e N he hN]
  exact Int.mod_modEq _ _

/-- Equal bases modulo `N` and equal powers. -/
theorem powerMod_congr {N d e base base' : Int} (hN : 0 < N) (hd : 0 ≤ d) (he : 0 ≤ e)
    (h : base ^ d.toNat ≡ base' ^ e.toNat [ZMOD N]) :
    botan.powerMod base d N = botan.powerMod base' e N := by
  rw [botan.powerMod_eq base d N hd hN, botan.powerMod_eq base' e N he hN]
  exact h

/-- The `S` of the server is `g^(b (a + u x))`. -/
theorem server_secret {N g a b u x : Int} (hN : 0 < N) (ha : 0 ≤ a) (hb : 0 ≤ b) (hu : 0 ≤ u)
    (hx : 0 ≤ x) :
    botan.powerMod (botan.powerMod g a N * botan.powerMod (botan.powerMod g x N) u N) b N =
      botan.powerMod g (b * (a + u * x)) N := by
  have hux := Int.mul_nonneg hu hx
  have haux := Int.add_nonneg ha hux
  apply powerMod_congr botan hN hb (Int.mul_nonneg hb haux)
  have hA := powerMod_modEq botan hN ha g
  have hv := powerMod_modEq botan hN hx g
  have hvu := (powerMod_modEq botan hN hu (botan.powerMod g x N)).trans (hv.pow u.toNat)
  calc (botan.powerMod g a N * botan.powerMod (botan.powerMod g x N) u N) ^ b.toNat
      ≡ (g ^ a.toNat * (g ^ x.toNat) ^ u.toNat) ^ b.toNat [ZMOD N] := (hA.mul hvu).pow _
    _ = g ^ (b * (a + u * x)).toNat := by
      rw [Int.toNat_mul hb haux, Int.toNat_add ha hux, Int.toNat_mul hu hx, ← pow_mul, ← pow_add,
        ← pow_mul]
      congr 1
      ring

/-- The `S` of the client is `g^(b (a + u x))`. -/
theorem client_secret {N g a b u x : Int} (hN : 0 < N) (ha : 0 ≤ a) (hb : 0 ≤ b) (hu : 0 ≤ u)
    (hx : 0 ≤ x) :
    botan.powerMod
        ((3 * botan.powerMod g x N + botan.powerMod g b N) % N - 3 * botan.powerMod g x N)
        (a + u * x) N =
      botan.powerMod g (b * (a + u * x)) N := by
  have haux := Int.add_nonneg ha (Int.mul_nonneg hu hx)
  apply powerMod_congr botan hN haux (Int.mul_nonneg hb haux)
  have hB := powerMod_modEq botan hN hb g
  -- without the reductions the base of the client is a power of `g`
  have hbase : (3 * botan.powerMod g x N + botan.powerMod g b N) % N -
      3 * botan.powerMod g x N ≡ g ^ b.toNat [ZMOD N] := by
    have hsub := ((Int.mod_modEq (3 * botan.powerMod g x N + botan.powerMod g b N) N).sub
      (Int.ModEq.refl (3 * botan.powerMod g x N)))
    rw [add_sub_cancel_left] at hsub
    exact hsub.trans hB
  rw [Int.toNat_mul hb haux, pow_mul]
  exact hbase.pow _

/-- The client's value is a residue, and so the server refuses it only where `N` divides it. -/
theorem Client.publicEphemeralValue_pos (groupParameter : GroupParameter)
    (hN : 0 < botan.bigInt groupParameter.N) {a : Int} (ha : 0 ≤ a) (identity : List UInt8)
    (compliance : Compliance)
    (hA : ¬ botan.bigInt groupParameter.N ∣
      (Client.new botan groupParameter identity compliance a).publicEphemeralValue) :
    0 < (Client.new botan groupParameter identity compliance a).publicEphemeralValue := by
  have hresidue : (Client.new botan groupParameter identity compliance a).publicEphemeralValue = _ :=
    botan.powerMod_eq _ a _ ha hN
  refine lt_of_le_of_ne ?_ fun hzero => hA (hzero ▸ Int.dvd_zero _)
  rw [hresidue]
  exact Int.emod_nonneg _ (Int.ne_of_gt hN)

/-- The secret that both sides hash, without their reductions. -/
def secret (client : Client) (server : Server) (username password : List UInt8) (salt : Int) :
    Int :=
  let x := generateX botan username password salt client.compliance
  let u := sha1Hash botan client.compliance [.bigInt client.A, .bigInt server.B]
  botan.powerMod client.g (server.b * (client.a + u * x)) client.N

/-- A server with the verifier of the `x` that the client computes hashes the client's secret. -/
theorem sessionKey_of_verifier (groupParameter : GroupParameter)
    (hN : 0 < botan.bigInt groupParameter.N) {a b v : Int} (ha : 0 ≤ a) (hb : 0 ≤ b) (salt : Int)
    (identity username password : List UInt8) (compliance : Compliance)
    (hA : ¬ botan.bigInt groupParameter.N ∣
      (Client.new botan groupParameter identity compliance a).publicEphemeralValue)
    (hv : v = botan.powerMod groupParameter.g.toNat
      (generateX botan username password salt compliance) (botan.bigInt groupParameter.N)) :
    let client := Client.new botan groupParameter identity compliance a
    let server := Server.new botan groupParameter v compliance b
    let key := keyOfSecret botan compliance (secret botan client server username password salt)
    client.sessionKey botan server.publicEphemeralValue username password salt = key ∧
      server.sessionKey botan client.publicEphemeralValue =
        .ofOption key { server with A := client.publicEphemeralValue } := by
  intro client server key
  subst hv
  have hpos : 0 < client.publicEphemeralValue :=
    Client.publicEphemeralValue_pos botan groupParameter hN ha identity compliance hA
  have hu := sha1Hash_nonneg botan compliance [.bigInt client.A, .bigInt server.B]
  have hx := generateX_nonneg botan username password salt compliance
  constructor
  · rw [client.sessionKey_eq botan]
    exact congrArg (keyOfSecret botan compliance)
      (client_secret botan (g := groupParameter.g.toNat) hN ha hb hu hx)
  · rcases server.sessionKey_cases botan client.publicEphemeralValue with
      ⟨hrefused, -⟩ | ⟨-, hreturns⟩
    · rcases hrefused with hle | hdvd
      · exact absurd hpos (Int.not_lt.2 hle)
      · exact absurd hdvd hA
    · rw [hreturns]
      exact congrArg (fun S => Outcome.ofOption (keyOfSecret botan compliance S) _)
        (server_secret botan (g := groupParameter.g.toNat) hN ha hb hu hx)

/-- **Agreement.** A server built with the verifier of a password and a client that knows the
password get the same session key, unless `N` divides the value that the client sends. They get
none, and the behaviour of both is undefined, exactly if `Wow` leaves nothing of the secret to be
hashed. -/
theorem session_keys_agree (groupParameter : GroupParameter)
    (hN : 0 < botan.bigInt groupParameter.N) {a b : Int} (ha : 0 ≤ a) (hb : 0 ≤ b) (salt : Int)
    (identity username password : List UInt8) (compliance : Compliance)
    (hA : ¬ botan.bigInt groupParameter.N ∣
      (Client.new botan groupParameter identity compliance a).publicEphemeralValue) :
    let x := generateX botan username password salt compliance
    let v := botan.powerMod groupParameter.g.toNat x (botan.bigInt groupParameter.N)
    let client := Client.new botan groupParameter identity compliance a
    let server := Server.new botan groupParameter v compliance b
    let key := client.sessionKey botan server.publicEphemeralValue username password salt
    server.sessionKey botan client.publicEphemeralValue =
        .ofOption key { server with A := client.publicEphemeralValue } ∧
      (key = none ↔ compliance = .wow ∧
        trimmed (encodeFlip botan (secret botan client server username password salt)) = []) := by
  intro x v client server key
  obtain ⟨hclient, hserver⟩ := sessionKey_of_verifier botan groupParameter hN ha hb salt identity
    username password compliance hA rfl
  refine ⟨?_, ?_⟩
  · rw [hserver, ← hclient]
  · change client.sessionKey botan _ _ _ _ = none ↔ _
    rw [hclient]
    exact keyOfSecret_eq_none_iff botan

end Agreement

/-- The group of order 22: "23", with 5 for a generator. -/
def smallGroup : GroupParameter where
  N := [50, 51]
  g := 5

theorem session_keys_agree_sample :
    let botan := Botan.standard
    let x := generateX botan [65] [66] 7 .rfc5054
    let client := Client.new botan smallGroup [65] .rfc5054 6
    let server := Server.new botan smallGroup (botan.powerMod 5 x 23) .rfc5054 15
    ∃ key, client.sessionKey botan server.publicEphemeralValue [65] [66] 7 = some key ∧
      server.sessionKey botan client.publicEphemeralValue =
        .ok key { server with A := client.publicEphemeralValue } := by
  intro botan x client server
  obtain ⟨hserver, hnone⟩ := session_keys_agree Botan.standard smallGroup (by decide +kernel)
    (a := 6) (b := 15) (by decide) (by decide) 7 [65] [65] [66] .rfc5054 (by decide +kernel)
  obtain ⟨key, hkey⟩ := Option.ne_none_iff_exists'.1 fun h => nomatch (hnone.1 h).1
  refine ⟨key, hkey, hserver.trans ?_⟩
  exact congrArg (fun key? => Outcome.ofOption key? _) hkey

end KeycapRoot.Network.Srp6
