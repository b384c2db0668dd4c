import KeycapRoot.Lib.Hexadecimal
import KeycapRoot.Network.Srp6.KeyAgreement

/-!
# Group parameters

The groups of RFC 5054, and one of 256 bits. A modulus is a text, which Botan reads as a hexadecimal
number. All that the protocol needs of a group to work is that the generator has no factor in common
with the modulus; whether the modulus is a prime does not matter for that.
-/

namespace KeycapRoot.Network.Srp6

inductive GroupParameters
  | bits256
  | bits1024
  | bits1536
  | bits2048
  | bits3072
  | bits4096
  | bits6144
  | bits8192
  deriving DecidableEq, Repr

namespace GroupParameters

def bits : GroupParameters → Nat
  | .bits256 => 256
  | .bits1024 => 1024
  | .bits1536 => 1536
  | .bits2048 => 2048
  | .bits3072 => 3072
  | .bits4096 => 4096
  | .bits6144 => 6144
  | .bits8192 => 8192

/-- The digits of the modulus, 64 to a row. -/
def rows : GroupParameters → List Nat
  | .bits256 => [
    0x894B645E89E1535BBDAD5B8B290650530801B18EBFBF5E8FAB3C82872A3E9BB7]
  | .bits1024 => [
    0xEEAF0AB9ADB38DD69C33F80AFA8FC5E86072618775FF3C0B9EA2314C9C256576,
    0xD674DF7496EA81D3383B4813D692C6E0E0D5D8E250B98BE48E495C1D6089DAD1,
    0x5DC7D7B46154D6B6CE8EF4AD69B15D4982559B297BCF1885C529F566660E57EC,
    0x68EDBC3C05726CC02FD4CBF4976EAA9AFD5138FE8376435B9FC61D2FC0EB06E3]
  | .bits1536 => [
    0x9DEF3CAFB939277AB1F12A8617A47BBBDBA51DF499AC4C80BEEEA9614B19CC4D,
    0x5F4F5F556E27CBDE51C6A94BE4607A291558903BA0D0F84380B655BB9A22E8DC,
    0xDF028A7CEC67F0D08134B1C8B97989149B609E0BE3BAB63D47548381DBC5B1FC,
    0x764E3F4B53DD9DA1158BFD3E2B9C8CF56EDF019539349627DB2FD53D24B7C486,
    0x65772E437D6C7F8CE442734AF7CCB7AE837C264AE3A9BEB87F8A2FE9B8B5292E,
    0x5A021FFF5E91479E8CE7A28C2442C6F315180F93499A234DCF76E3FED135F9BB]
  | .bits2048 => [
    0xAC6BDB41324A9A9BF166DE5E1389582FAF72B6651987EE07FC3192943DB56050,
    0xA37329CBB4A099ED8193E0757767A13DD52312AB4B03310DCD7F48A9DA04FD50,
    0xE8083969EDB767B0CF6095179A163AB3661A05FBD5FAAAE82918A9962F0B93B8,
    0x55F97993EC975EEAA80D740ADBF4FF747359D041D5C33EA71D281E446B14773B,
    0xCA97B43A23FB801676BD207A436C6481F1D2B9078717461A5B9D32E688F87748,
    0x544523B524B0D57D5EA77A2775D2ECFA032CFBDBF52FB3786160279004E57AE6,
    0xAF874E7303CE53299CCC041C7BC308D82A5698F3A8D0C38271AE35F8E9DBFBB6,
    0x94B5C803D89F7AE435DE236D525F54759B65E372FCD68EF20FA7111F9E4AFF73]
  | .bits3072 => [
    0xFFFFFFFFFFFFFFFFC90FDAA22168C234C4C6628B80DC1CD129024E088A67CC74,
    0x020BBEA63B139B22514A08798E3404DDEF9519B3CD3A431B302B0A6DF25F1437,
    0x4FE1356D6D51C245E485B576625E7EC6F44C42E9A637ED6B0BFF5CB6F406B7ED,
    0xEE386BFB5A899FA5AE9F24117C4B1FE649286651ECE45B3DC2007CB8A163BF05,
    0x98DA48361C55D39A69163FA8FD24CF5F83655D23DCA3AD961C62F356208552BB,
    0x9ED529077096966D670C354E4ABC9804F1746C08CA18217C32905E462E36CE3B,
    0xE39E772C180E86039B2783A2EC07A28FB5C55DF06F4C52C9DE2BCBF695581718,
    0x3995497CEA956AE515D2261898FA051015728E5A8AAAC42DAD33170D04507A33,
    0xA85521ABDF1CBA64ECFB850458DBEF0A8AEA71575D060C7DB3970F85A6E1E4C7,
    0xABF5AE8CDB0933D71E8C94E04A25619DCEE3D2261AD2EE6BF12FFA06D98A0864,
    0xD87602733EC86A64521F2B18177B200CBBE117577A615D6C770988C0BAD946E2,
    0x08E24FA074E5AB3143DB5BFCE0FD108E4B82D120A93AD2CAFFFFFFFFFFFFFFFF]
  | .bits4096 => [
    0xFFFFFFFFFFFFFFFFC90FDAA22168C234C4C6628B80DC1CD129024E088A67CC74,
    0x020BBEA63B139B22514A08798E3404DDEF9519B3CD3A431B302B0A6DF25F1437,
    0x4FE1356D6D51C245E485B576625E7EC6F44C42E9A637ED6B0BFF5CB6F406B7ED,
    0xEE386BFB5A899FA5AE9F24117C4B1FE649286651ECE45B3DC2007CB8A163BF05,
    0x98DA48361C55D39A69163FA8FD24CF5F83655D23DCA3AD961C62F356208552BB,
    0x9ED529077096966D670C354E4ABC9804F1746C08CA18217C32905E462E36CE3B,
    0xE39E772C180E86039B2783A2EC07A28FB5C55DF06F4C52C9DE2BCBF695581718,
    0x3995497CEA956AE515D2261898FA051015728E5A8AAAC42DAD33170D04507A33,
    0xA85521ABDF1CBA64ECFB850458DBEF0A8AEA71575D060C7DB3970F85A6E1E4C7,
    0xABF5AE8CDB0933D71E8C94E04A25619DCEE3D2261AD2EE6BF12FFA06D98A0864,
    0xD87602733EC86A64521F2B18177B200CBBE117577A615D6C770988C0BAD946E2,
    0x08E24FA074E5AB3143DB5BFCE0FD108E4B82D120A92108011A723C12A787E6D7,
    0x88719A10BDBA5B2699C327186AF4E23C1A946834B6150BDA2583E9CA2AD44CE8,
    0xDBBBC2DB04DE8EF92E8EFC141FBECAA6287C59474E6BC05D99B2964FA090C3A2,
    0x233BA186515BE7ED1F612970CEE2D7AFB81BDD762170481CD0069127D5B05AA9,
    0x93B4EA988D8FDDC186FFB7DC90A6C08F4DF435C934063199FFFFFFFFFFFFFFFF]
  | .bits6144 => [
    0xFFFFFFFFFFFFFFFFC90FDAA22168C234C4C6628B80DC1CD129024E088A67CC74,
    0x020BBEA63B139B22514A08798E3404DDEF9519B3CD3A431B302B0A6DF25F1437,
    0x4FE1356D6D51C245E485B576625E7EC6F44C42E9A637ED6B0BFF5CB6F406B7ED,
    0xEE386BFB5A899FA5AE9F24117C4B1FE649286651ECE45B3DC2007CB8A163BF05,
    0x98DA48361C55D39A69163FA8FD24CF5F83655D23DCA3AD961C62F356208552BB,
    0x9ED529077096966D670C354E4ABC9804F1746C08CA18217C32905E462E36CE3B,
    0xE39E772C180E86039B2783A2EC07A28FB5C55DF06F4C52C9DE2BCBF695581718,
    0x3995497CEA956AE515D2261898FA051015728E5A8AAAC42DAD33170D04507A33,
    0xA85521ABDF1CBA64ECFB850458DBEF0A8AEA71575D060C7DB3970F85A6E1E4C7,
    0xABF5AE8CDB0933D71E8C94E04A25619DCEE3D2261AD2EE6BF12FFA06D98A0864,
    0xD87602733EC86A64521F2B18177B200CBBE117577A615D6C770988C0BAD946E2,
    0x08E24FA074E5AB3143DB5BFCE0FD108E4B82D120A92108011A723C12A787E6D7,
    0x88719A10BDBA5B2699C327186AF4E23C1A946834B6150BDA2583E9CA2AD44CE8,
    0xDBBBC2DB04DE8EF92E8EFC141FBECAA6287C59474E6BC05D99B2964FA090C3A2,
    0x233BA186515BE7ED1F612970CEE2D7AFB81BDD762170481CD0069127D5B05AA9,
    0x93B4EA988D8FDDC186FFB7DC90A6C08F4DF435C93402849236C3FAB4D27C7026,
    0xC1D4DCB2602646DEC9751E763DBA37BDF8FF9406AD9E530EE5DB382F413001AE,
    0xB06A53ED9027D831179727B0865A8918DA3EDBEBCF9B14ED44CE6CBACED4BB1B,
    0xDB7F1447E6CC254B332051512BD7AF426FB8F401378CD2BF5983CA01C64B92EC,
    0xF032EA15D1721D03F482D7CE6E74FEF6D55E702F46980C82B5A84031900B1C9E,
    0x59E7C97FBEC7E8F323A97A7E36CC88BE0F1D45B7FF585AC54BD407B22B4154AA,
    0xCC8F6D7EBF48E1D814CC5ED20F8037E0A79715EEF29BE32806A1D58BB7C5DA76,
    0xF550AA3D8A1FBFF0EB19CCB1A313D55CDA56C9EC2EF29632387FE8D76E3C0468,
    0x043E8F663F4860EE12BF2D5B0B7474D6E694F91E6DCC4024FFFFFFFFFFFFFFFF]
  | .bits8192 => [
    0xFFFFFFFFFFFFFFFFC90FDAA22168C234C4C6628B80DC1CD129024E088A67CC74,
    0x020BBEA63B139B22514A08798E3404DDEF9519B3CD3A431B302B0A6DF25F1437,
    0x4FE1356D6D51C245E485B576625E7EC6F44C42E9A637ED6B0BFF5CB6F406B7ED,
    0xEE386BFB5A899FA5AE9F24117C4B1FE649286651ECE45B3DC2007CB8A163BF05,
    0x98DA48361C55D39A69163FA8FD24CF5F83655D23DCA3AD961C62F356208552BB,
    0x9ED529077096966D670C354E4ABC9804F1746C08CA18217C32905E462E36CE3B,
    0xE39E772C180E86039B2783A2EC07A28FB5C55DF06F4C52C9DE2BCBF695581718,
    0x3995497CEA956AE515D2261898FA051015728E5A8AAAC42DAD33170D04507A33,
    0xA85521ABDF1CBA64ECFB850458DBEF0A8AEA71575D060C7DB3970F85A6E1E4C7,
    0xABF5AE8CDB0933D71E8C94E04A25619DCEE3D2261AD2EE6BF12FFA06D98A0864,
    0xD87602733EC86A64521F2B18177B200CBBE117577A615D6C770988C0BAD946E2,
    0x08E24FA074E5AB3143DB5BFCE0FD108E4B82D120A92108011A723C12A787E6D7,
    0x88719A10BDBA5B2699C327186AF4E23C1A946834B6150BDA2583E9CA2AD44CE8,
    0xDBBBC2DB04DE8EF92E8EFC141FBECAA6287C59474E6BC05D99B2964FA090C3A2,
    0x233BA186515BE7ED1F612970CEE2D7AFB81BDD762170481CD0069127D5B05AA9,
    0x93B4EA988D8FDDC186FFB7DC90A6C08F4DF435C93402849236C3FAB4D27C7026,
    0xC1D4DCB2602646DEC9751E763DBA37BDF8FF9406AD9E530EE5DB382F413001AE,
    0xB06A53ED9027D831179727B0865A8918DA3EDBEBCF9B14ED44CE6CBACED4BB1B,
    0xDB7F1447E6CC254B332051512BD7AF426FB8F401378CD2BF5983CA01C64B92EC,
    0xF032EA15D1721D03F482D7CE6E74FEF6D55E702F46980C82B5A84031900B1C9E,
    0x59E7C97FBEC7E8F323A97A7E36CC88BE0F1D45B7FF585AC54BD407B22B4154AA,
    0xCC8F6D7EBF48E1D814CC5ED20F8037E0A79715EEF29BE32806A1D58BB7C5DA76,
    0xF550AA3D8A1FBFF0EB19CCB1A313D55CDA56C9EC2EF29632387FE8D76E3C0468,
    0x043E8F663F4860EE12BF2D5B0B7474D6E694F91E6DBE115974A3926F12FEE5E4,
    0x38777CB6A932DF8CD8BEC4D073B931BA3BC832B68D9DD300741FA7BF8AFC47ED,
    0x2576F6936BA424663AAB639C5AE4F5683423B4742BF1C978238F16CBE39D652D,
    0xE3FDB8BEFC848AD922222E04A4037C0713EB57A81A23F0C73473FC646CEA306B,
    0x4BCBC8862F8385DDFA9D4B7FA2C087E879683303ED5BDD3A062B3CF5B3A278A6,
    0x6D2A13F83F44F82DDF310EE074AB6A364597E899A0255DC164F31CC50846851D,
    0xF9AB48195DED7EA1B1D510BD7EE74D73FAF36BC31ECFA268359046F4EB879F92,
    0x4009438B481C6CD7889A002ED5EE382BC9190DA6FC026E479558E4475677E9AA,
    0x9E3050E2765694DFC81F56E880B96E7160C980DD98EDD3DFFFFFFFFFFFFFFFFF]

def modulus (parameters : GroupParameters) : Nat :=
  parameters.rows.foldl (fun n row => 2 ^ 256 * n + row) 0

def generator : GroupParameters → UInt64
  | .bits256 => 7
  | .bits1024 => 2
  | .bits1536 => 2
  | .bits2048 => 2
  | .bits3072 => 5
  | .bits4096 => 5
  | .bits6144 => 5
  | .bits8192 => 19

end GroupParameters

/-- `0x` and the digits of a number. -/
def hexText (digits : List Char) : List UInt8 :=
  ('0' :: 'x' :: digits).map fun c => UInt8.ofNat c.toNat

def getParameters (parameters : GroupParameters) : GroupParameter where
  N := hexText (Hexadecimal.digits true parameters.modulus)
  g := parameters.generator

/-- A group that the protocol works in: the modulus has the bits that the group is named for, and
the generator and it are coprime. -/
structure GroupParameters.Sound (parameters : GroupParameters) : Prop where
  ge : 2 ^ (parameters.bits - 1) ≤ parameters.modulus
  lt : parameters.modulus < 2 ^ parameters.bits
  coprime : Nat.Coprime parameters.modulus parameters.generator.toNat

theorem GroupParameters.sound (parameters : GroupParameters) : parameters.Sound := by
  cases parameters <;> exact ⟨by decide +kernel, by decide +kernel, by decide +kernel⟩

theorem GroupParameters.one_lt_modulus (parameters : GroupParameters) : 1 < parameters.modulus := by
  have hbits : 2 ^ 1 ≤ 2 ^ (parameters.bits - 1) :=
    Nat.pow_le_pow_right (by decide) (by cases parameters <;> decide)
  exact Nat.lt_of_lt_of_le (by decide) (Nat.le_trans hbits parameters.sound.ge)

/-! ## Texts of numbers -/

/-- Botan reads the digits behind `0x` as a hexadecimal number. -/
def Botan.ReadsHex (botan : Botan) : Prop :=
  ∀ digits n, digits ≠ [] → Hexadecimal.value digits = some n → botan.bigInt (hexText digits) = n

theorem digit_of_digitValue {c : Char} {d : Nat} (h : Hexadecimal.digitValue c = some d) :
    digit (UInt8.ofNat c.toNat) = d := by
  have hsmall : c.toNat < 256 := by
    unfold Hexadecimal.digitValue at h
    split_ifs at h <;> omega
  have hbyte : (UInt8.ofNat c.toNat).toNat = c.toNat :=
    UInt8.toNat_ofNat'.trans (Nat.mod_eq_of_lt hsmall)
  have hless (k : UInt8) : UInt8.ofNat c.toNat < k ↔ c.toNat < k.toNat := by
    rw [UInt8.lt_iff_toNat_lt, hbyte]
  unfold Hexadecimal.digitValue at h
  simp only [digit, hless, hbyte, UInt8.reduceToNat]
  split_ifs at h ⊢ <;> simp only [Option.some.injEq] at h <;> omega

theorem foldl_digit {digits : List Char} {start n : Nat}
    (h : digits.foldlM (fun n c => (Hexadecimal.digitValue c).map fun d => 16 * n + d) start =
      some n) :
    (digits.map fun c => UInt8.ofNat c.toNat).foldl (fun n c => 16 * n + digit c) start = n := by
  induction digits generalizing start with
  | nil => exact Option.some.inj h
  | cons c digits ih =>
    rw [List.foldlM_cons] at h
    obtain ⟨next, hnext, hrest⟩ := Option.bind_eq_some_iff.1 h
    obtain ⟨d, hd, rfl⟩ := Option.map_eq_some_iff.1 hnext
    rw [List.map_cons, List.foldl_cons, digit_of_digitValue hd]
    exact ih hrest

theorem Botan.standard_readsHex : Botan.standard.ReadsHex := by
  intro digits n _ hvalue
  exact congrArg Nat.cast (foldl_digit hvalue)

/-- Botan reads a modulus from the parameter that has no factor in common with the generator. -/
structure GroupParameter.Works (botan : Botan) (parameter : GroupParameter) (modulus : Nat) :
    Prop where
  reads : botan.bigInt parameter.N = modulus
  one_lt : 1 < modulus
  coprime : Nat.Coprime modulus parameter.g.toNat

theorem getParameters_works {botan : Botan} (h : botan.ReadsHex) (parameters : GroupParameters) :
    (getParameters parameters).Works botan parameters.modulus := by
  refine ⟨?_, parameters.one_lt_modulus, parameters.sound.coprime⟩
  have hvalue := Hexadecimal.value_digits true parameters.modulus
  refine h _ _ ?_ hvalue
  intro hnil
  rw [hnil] at hvalue
  have hone := parameters.one_lt_modulus
  rw [← Option.some.inj hvalue] at hone
  exact absurd hone (by decide)

end KeycapRoot.Network.Srp6
