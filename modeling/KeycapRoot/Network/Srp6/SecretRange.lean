import Mathlib.Data.Nat.Prime.Int
import Mathlib.Tactic.NormNum.Prime
import KeycapRoot.Network.Srp6.KeyAgreement

/-!
# The range of the secret

Modulo a prime a product of units is a unit, and so is every power of one. The server refuses the
values of `A` that are no units, and its verifier is one; so whatever `u` is, the secret that it
hashes is a unit too, and no client forces it to zero (`sessionKey_secret_range`).
-/

namespace KeycapRoot.Network.Srp6

section Units

variable (botan : Botan) {N : Nat} (hN : N.Prime)

include hN

/-- A power of a unit is a residue between 1 and the modulus. -/
theorem powerMod_range {base e : Int} (hbase : ¬ (N : Int) ∣ base) (he : 0 ≤ e) :
    1 ≤ botan.powerMod base e N ∧ botan.powerMod base e N ≤ N - 1 := by
  have hpos : (0 : Int) < N := Int.natCast_pos.2 hN.pos
  have hprime : Prime (N : Int) := Nat.prime_iff_prime_int.1 hN
  have hpow : ¬ (N : Int) ∣ base ^ e.toNat := fun h => hbase (hprime.dvd_of_dvd_pow h)
  rw [botan.powerMod_eq base e N he hpos]
  have hlt := Int.emod_lt_of_pos (base ^ e.toNat) hpos
  have hge := Int.emod_pos_of_not_dvd hpow
  omega

/-- A power of a unit is a unit. -/
theorem not_dvd_powerMod {base e : Int} (hbase : ¬ (N : Int) ∣ base) (he : 0 ≤ e) :
    ¬ (N : Int) ∣ botan.powerMod base e N := by
  obtain ⟨hge, hle⟩ := powerMod_range botan hN hbase he
  intro hdvd
  have := Int.le_of_dvd (by omega) hdvd
  omega

/-- The secret of a server that was sent a unit, for any `u`. -/
theorem secret_range {A v u b : Int} (hA : ¬ (N : Int) ∣ A) (hv : ¬ (N : Int) ∣ v) (hu : 0 ≤ u)
    (hb : 0 ≤ b) :
    1 ≤ botan.powerMod (A * botan.powerMod v u N) b N ∧
      botan.powerMod (A * botan.powerMod v u N) b N ≤ N - 1 := by
  have hprime : Prime (N : Int) := Nat.prime_iff_prime_int.1 hN
  have hbase : ¬ (N : Int) ∣ A * botan.powerMod v u N := by
    intro hdvd
    rcases hprime.dvd_or_dvd hdvd with h | h
    · exact hA h
    · exact not_dvd_powerMod botan hN hv hu h
  exact powerMod_range botan hN hbase hb

end Units

section Server

variable (botan : Botan)

/-- **The secret.** The server throws for the `A` that are not positive or divisible by `N`, and
then keeps the `A` that it has. Any other `A` it takes, and the secret that it hashes is between 1
and `N - 1`, as it would be for any other hash `u`. -/
theorem sessionKey_secret_range {N : Nat} (hN : N.Prime) (g : Int) {v b : Int}
    (hv : ¬ (N : Int) ∣ v) (hb : 0 ≤ b) (compliance : Compliance) (A₀ A : Int) :
    let server := { Server.ofInts botan N g v b compliance with A := A₀ }
    let secret (u : Int) := botan.powerMod (A * botan.powerMod v u N) b N
    ((∃ what t, server.sessionKey botan A = .error (.exception what) t) ↔
        A ≤ 0 ∨ (N : Int) ∣ A) ∧
      (∀ what t, server.sessionKey botan A = .error (.exception what) t → t = server) ∧
      (¬ (A ≤ 0 ∨ (N : Int) ∣ A) →
        (∃ u, 0 ≤ u ∧ u = sha1Hash botan compliance [.bigInt A, .bigInt server.B] ∧
          server.sessionKey botan A =
            .ofOption (keyOfSecret botan compliance (secret u)) { server with A }) ∧
        ∀ u, 0 ≤ u → 1 ≤ secret u ∧ secret u ≤ N - 1) := by
  intro server secret
  rcases server.sessionKey_cases botan A with ⟨hrefused, what, hthrows⟩ | ⟨htaken, hreturns⟩
  · refine ⟨⟨fun _ => hrefused, fun _ => ⟨_, _, hthrows⟩⟩, ?_, fun h => absurd hrefused h⟩
    intro what' t hfault
    rw [hthrows] at hfault
    cases hfault
    rfl
  · have hthrows (what : String) (t : Server) :
        server.sessionKey botan A ≠ .error (.exception what) t := by
      rw [hreturns]
      exact Outcome.ofOption_ne_exception _ what _ t
    refine ⟨⟨?_, fun h => absurd h htaken⟩, fun what t h => absurd h (hthrows what t), ?_⟩
    · rintro ⟨what, t, hfault⟩
      exact absurd hfault (hthrows what t)
    · intro _
      refine ⟨⟨_, sha1Hash_nonneg botan compliance _, rfl, hreturns⟩, ?_⟩
      intro u hu
      exact secret_range botan hN (fun hdvd => htaken (Or.inr hdvd)) hv hu hb

end Server

theorem sessionKey_secret_range_sample :
    let server := Server.ofInts Botan.standard 23 5 4 15 .rfc5054
    (∃ u, 0 ≤ u ∧ u = sha1Hash Botan.standard .rfc5054 [.bigInt 8, .bigInt server.B] ∧
        server.sessionKey Botan.standard 8 =
          .ofOption (keyOfSecret Botan.standard .rfc5054
            (Botan.standard.powerMod (8 * Botan.standard.powerMod 4 u 23) 15 23))
            { server with A := 8 }) ∧
      ∃ what t, server.sessionKey Botan.standard 46 = .error (.exception what) t := by
  refine ⟨?_, ?_⟩
  · exact ((sessionKey_secret_range Botan.standard (by norm_num : Nat.Prime 23) 5 (v := 4)
      (b := 15) (by decide) (by decide) .rfc5054 0 8).2.2 (by decide)).1
  · exact (sessionKey_secret_range Botan.standard (by norm_num : Nat.Prime 23) 5 (v := 4)
      (b := 15) (by decide) (by decide) .rfc5054 0 46).1.2 (by decide)

end KeycapRoot.Network.Srp6
