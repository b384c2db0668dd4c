import Mathlib.Data.Nat.Prime.Basic
import KeycapRoot.Network.Srp6.Credentials
import KeycapRoot.Network.Srp6.FixedWidth
import KeycapRoot.Network.Srp6.GroupParameters
import KeycapRoot.Network.Srp6.SecretRange

/-!
# Login

With any of the groups of `get_parameters`, a client that knows the password is never refused: the
server takes the value that it sends, whatever the secrets are and whatever was tried on the server
object before, and both have the same proofs and the same session key, unless `Wow` leaves nothing
of their secret to be hashed (`login_succeeds`). What they exchange in the group of 256 bits fits in
the arrays that it is sent in, and is read back from them (`exchanged_values_fit`).
-/

namespace KeycapRoot.Network.Srp6

open Utility (toUpper)

section Login

variable (botan : Botan)

/-! ## Residues -/

/-- The modulus divides no power of the generator. -/
theorem GroupParameter.Works.powerMod_range {parameter : GroupParameter} {modulus : Nat}
    (h : parameter.Works botan modulus) {e : Int} (he : 0 ≤ e) :
    0 < botan.powerMod parameter.g.toNat e modulus ∧
      botan.powerMod parameter.g.toNat e modulus < modulus := by
  have hone := h.one_lt
  have hresidue : botan.powerMod parameter.g.toNat e modulus =
      ((parameter.g.toNat ^ e.toNat % modulus : Nat) : Int) := by
    rw [Int.natCast_emod, Int.natCast_pow]
    exact botan.powerMod_eq _ e _ he (by omega)
  have hne : parameter.g.toNat ^ e.toNat % modulus ≠ 0 := by
    intro hzero
    have hself := (h.coprime.pow_right e.toNat).eq_one_of_dvd (Nat.dvd_of_mod_eq_zero hzero)
    omega
  have hlt := Nat.mod_lt (parameter.g.toNat ^ e.toNat) (Nat.zero_lt_of_lt hone)
  rw [hresidue]
  omega

/-! ## A server object over its calls -/

/-- The server behind a call of `session_key`. -/
def Server.call (s : Server) (A : Int) : Server :=
  match s.sessionKey botan A with
  | .ok _ s' => s'
  | .error _ s' => s'

/-- A call sets the other side's value, if anything. -/
theorem Server.call_eq (s : Server) (A : Int) : ∃ A', s.call botan A = { s with A := A' } := by
  rw [Server.call]
  rcases s.sessionKey_cases botan A with ⟨-, what, hthrows⟩ | ⟨-, hreturns⟩
  · rw [hthrows]
    exact ⟨s.A, rfl⟩
  · rw [hreturns]
    refine ⟨A, ?_⟩
    cases keyOfSecret botan s.compliance _ with
    | none => rfl
    | some key => rfl

theorem Server.calls_eq (s : Server) (tries : List Int) :
    ∃ A', tries.foldl (Server.call botan) s = { s with A := A' } := by
  induction tries generalizing s with
  | nil => exact ⟨s.A, rfl⟩
  | cons A tries ih =>
    obtain ⟨first, hfirst⟩ := s.call_eq botan A
    obtain ⟨last, hlast⟩ := ih (s.call botan A)
    rw [hfirst] at hlast
    exact ⟨last, by rw [List.foldl_cons, hfirst, hlast]⟩

/-- What was tried before does not matter for the next call, if it takes the value. -/
theorem Server.sessionKey_set (s : Server) {A : Int} (A' : Int) (htaken : ¬ (A ≤ 0 ∨ s.N ∣ A)) :
    { s with A := A' }.sessionKey botan A = s.sessionKey botan A := by
  rcases s.sessionKey_cases botan A with ⟨hrefused, -⟩ | ⟨-, hreturns⟩
  · exact absurd hrefused htaken
  · rcases { s with A := A' }.sessionKey_cases botan A with ⟨hrefused, -⟩ | ⟨-, hreturns'⟩
    · exact absurd hrefused htaken
    · exact hreturns'.trans hreturns.symm

/-! ## The login -/

/-- What a login comes to: the server takes the value of the client and its call of `session_key`
ends as the client's does, with the same session key unless `Wow` leaves nothing of the secret to be
hashed; and each side computes the proofs that the other one does. -/
structure LoggedIn (client : Client) (server : Server) (salt : Int) (password : List UInt8) :
    Prop where
  taken : server.sessionKey botan client.A =
    .ofOption (client.sessionKey botan server.B client.I password salt)
      { server with A := client.A }
  keyed : client.sessionKey botan server.B client.I password salt = none ↔
    client.compliance = .wow ∧
      trimmed (encodeFlip botan (secret botan client server client.I password salt)) = []
  clientProof : ∀ K, generateClientProof botan server.N server.g salt client.I client.A server.B K
      server.compliance =
    generateClientProof botan client.N client.g salt client.I client.A server.B K client.compliance
  serverProof : ∀ M K, { server with A := client.A }.proof botan M K =
    sha1Hash botan client.compliance [.bigInt client.A, .bigInt M, .bigInt K]

theorem GroupParameter.Works.loggedIn {parameter : GroupParameter} {modulus : Nat}
    (h : parameter.Works botan modulus) {a b : Int} (ha : 0 ≤ a) (hb : 0 ≤ b)
    (username password : List UInt8) (salt : Int) (compliance : Compliance) (tries : List Int) :
    let v := generateVerifier botan username password parameter salt compliance
    let server := Server.new botan parameter v compliance b
    LoggedIn botan (Client.new botan parameter (toUpper username) compliance a)
      (tries.foldl (Server.call botan) server) salt (toUpper password) := by
  intro v server
  have hrange := h.powerMod_range botan ha
  obtain ⟨A', hserver⟩ := server.calls_eq botan tries
  have hN : 0 < botan.bigInt parameter.N := by
    rw [h.reads]
    exact Int.lt_trans hrange.1 hrange.2
  rw [← h.reads] at hrange
  have hA : ¬ botan.bigInt parameter.N ∣
      (Client.new botan parameter (toUpper username) compliance a).publicEphemeralValue :=
    fun hdvd => absurd (Int.le_of_dvd hrange.1 hdvd) (Int.not_le.2 hrange.2)
  obtain ⟨hclient, htaken⟩ := sessionKey_of_verifier botan parameter hN ha hb salt
    (toUpper username) (toUpper username) (toUpper password) compliance hA (v := v) rfl
  rw [hserver]
  refine ⟨?_, ?_, fun _ => rfl, fun _ _ => rfl⟩
  · have hpasses := not_or.2 ⟨Int.not_le.2 hrange.1, hA⟩
    refine (server.sessionKey_set botan A' hpasses).trans (htaken.trans ?_)
    exact congrArg (fun key => Outcome.ofOption key _) hclient.symm
  · exact (congrArg (· = none) hclient).to_iff.trans (keyOfSecret_eq_none_iff botan)

/-- **Login.** In every group of `get_parameters`, a client that is given the credentials in upper
case and a server with their verifier log in, whatever other values the server object was given
before. -/
theorem login_succeeds (hhex : botan.ReadsHex) (parameters : GroupParameters) {a b : Int}
    (ha : 0 ≤ a) (hb : 0 ≤ b) (username password : List UInt8) (salt : Int)
    (compliance : Compliance) (tries : List Int) :
    let parameter := getParameters parameters
    let v := generateVerifier botan username password parameter salt compliance
    LoggedIn botan (Client.new botan parameter (toUpper username) compliance a)
      (tries.foldl (Server.call botan) (Server.new botan parameter v compliance b)) salt
      (toUpper password) :=
  (getParameters_works hhex parameters).loggedIn botan ha hb username password salt compliance tries

end Login

-- two values are tried before, one of which is refused
theorem login_succeeds_sample :
    let botan := Botan.standard
    let parameter := getParameters .bits256
    let v := generateVerifier botan [97] [98] parameter 7 .rfc5054
    let client := Client.new botan parameter (toUpper [97]) .rfc5054 6
    let server := [0, 5].foldl (Server.call botan) (Server.new botan parameter v .rfc5054 15)
    LoggedIn botan client server 7 (toUpper [98]) ∧
      client.sessionKey botan server.B client.I (toUpper [98]) 7 ≠ none := by
  intro botan parameter v client server
  have h : LoggedIn botan client server 7 (toUpper [98]) :=
    login_succeeds Botan.standard Botan.standard_readsHex .bits256 (by decide) (by decide) [97] [98]
      7 .rfc5054 [0, 5]
  exact ⟨h, fun hnone => nomatch (h.keyed.1 hnone).1⟩

/-! ## Arrays -/

section Arrays

variable (botan : Botan1363)

/-- A value goes into an array of `N` bytes, and is read back from it in the order of the mode. -/
def SentIn (N : Nat) (compliance : Compliance) (value : Int) : Prop :=
  ∃ bytes, toArray botan N value compliance = .ok bytes ∧ bytes.length = N ∧
    readHash botan.toBotan compliance bytes = value

theorem sentIn_of_lt {N : Nat} {value : Int} (hnonneg : 0 ≤ value) (hlt : value < 256 ^ N)
    (compliance : Compliance) : SentIn botan N compliance value := by
  obtain ⟨n, rfl⟩ := Int.eq_ofNat_of_zero_le hnonneg
  obtain ⟨bytes, hwow, hlength, hread, hrfc⟩ :=
    (toArray_encodesFixed botan N).encodes n (by exact_mod_cast hlt)
  cases compliance with
  | wow => exact ⟨bytes, hwow, hlength, hread⟩
  | rfc5054 => exact ⟨bytes.reverse, hrfc, by rw [List.length_reverse, hlength], hread⟩

theorem sentIn_digest (readAs compliance : Compliance) (message : List UInt8) :
    SentIn botan 20 compliance (readHash botan.toBotan readAs (botan.sha1 message)) := by
  have hlt (bytes : List UInt8) : botan.decode bytes < 256 ^ bytes.length := by
    have hdecode := LittleEndian.decode_lt bytes.reverse
    rw [← BigEndian.decode_reverse, List.reverse_reverse, List.length_reverse] at hdecode
    rw [botan.decode_eq, bigEndian_eq_decode]
    exact_mod_cast hdecode
  have hnonneg (bytes : List UInt8) : 0 ≤ botan.decode bytes := by
    rw [botan.decode_eq]
    exact Int.natCast_nonneg _
  have hlength := botan.length_sha1 message
  cases readAs with
  | wow =>
    have hlast := hlt (botan.sha1 message).reverse
    rw [List.length_reverse, hlength] at hlast
    exact sentIn_of_lt botan (hnonneg _) hlast compliance
  | rfc5054 =>
    have hlast := hlt (botan.sha1 message)
    rw [hlength] at hlast
    exact sentIn_of_lt botan (hnonneg _) hlast compliance

/-- **Arrays.** In the group of 256 bits the verifier and both public values fit in the arrays of 32
bytes that `to_array` makes, and in every group both proofs fit in the arrays of 20 bytes. None of
them throws, and each is read back. -/
theorem exchanged_values_fit (hhex : botan.ReadsHex) {a : Int} (ha : 0 ≤ a) (b : Int)
    (username password : List UInt8) (salt : Int) (compliance : Compliance) :
    let parameter := getParameters .bits256
    let v := generateVerifier botan.toBotan username password parameter salt compliance
    SentIn botan 32 compliance v ∧
      (∀ I, SentIn botan 32 compliance (Client.new botan.toBotan parameter I compliance a).A) ∧
      SentIn botan 32 compliance (Server.new botan.toBotan parameter v compliance b).B ∧
      (∀ N g I A B K,
        SentIn botan 20 compliance (generateClientProof botan.toBotan N g salt I A B K compliance)) ∧
      ∀ (server : Server) M K, SentIn botan 20 compliance (server.proof botan.toBotan M K) := by
  intro parameter v
  have hworks := getParameters_works hhex .bits256
  have hbits : ((GroupParameters.modulus .bits256 : Nat) : Int) < 256 ^ 32 := by decide +kernel
  have hpower {e : Int} (he : 0 ≤ e) :
      SentIn botan 32 compliance
        (botan.powerMod parameter.g.toNat e (botan.bigInt parameter.N)) := by
    have hrange := hworks.powerMod_range botan.toBotan he
    rw [← hworks.reads] at hrange hbits
    exact sentIn_of_lt botan (Int.le_of_lt hrange.1) (Int.lt_trans hrange.2 hbits) compliance
  refine ⟨hpower (generateX_nonneg botan.toBotan _ _ _ _), fun _ => hpower ha, ?_, ?_, ?_⟩
  · have hone := hworks.one_lt
    have hN : 0 < botan.bigInt parameter.N := by
      rw [hworks.reads]
      exact Int.natCast_pos.2 (Nat.zero_lt_of_lt hone)
    rw [← hworks.reads] at hbits
    exact sentIn_of_lt botan (Int.emod_nonneg _ (Int.ne_of_gt hN))
      (Int.lt_trans (Int.emod_lt_of_pos _ hN) hbits) compliance
  · intro N g I A B K
    exact sentIn_digest botan .wow compliance _
  · intro server M K
    exact sentIn_digest botan server.compliance compliance _

end Arrays

theorem exchanged_values_fit_sample :
    let parameter := getParameters .bits256
    let v := generateVerifier Botan1363.standard.toBotan [97] [98] parameter 7 .wow
    SentIn Botan1363.standard 32 .wow
      (Server.new Botan1363.standard.toBotan parameter v .wow 15).B :=
  (exchanged_values_fit Botan1363.standard Botan.standard_readsHex (a := 6) (by decide) 15 [97] [98]
    7 .wow).2.2.1

end KeycapRoot.Network.Srp6
