import Mathlib.Data.Nat.Digits.Defs
import Mathlib.Data.ZMod.Basic
import Mathlib.Tactic.Ring

/-!
# The keys of the two sides

The functions of `lua-srp.c`, which hand numbers to Lua as byte strings and take them back from there. The functions of
OpenSSL that they call are given, with the formulas that they compute. `random_key` draws the secrets: a function that
draws until a number passes a test takes the list of what it will draw, and has no result if the list runs out. It has none
either if `SRP_Calc_u` refuses its numbers: nobody looks at the `NULL` that it returns, and the process ends when
`push_bn` is given one.
-/

namespace SkynetServer.Srp

abbrev Bytes := List UInt8

/-- The functions of OpenSSL, and the group of `SRP_get_default_gN("1024")`. `srpCreateVerifierBN` is given the salt that it
draws, and `srpCalcK` is the multiplier that OpenSSL computes inside of `SRP_Calc_B` and `SRP_Calc_client_key`. -/
structure OpenSSL where
  N : Nat
  g : Nat
  bnBn2bin : Nat → Bytes
  bnBin2bn : Bytes → Nat
  srpCreateVerifierBN : (I p : Bytes) → (salt N g : Nat) → Option (Nat × Nat)
  srpCalcX : (s : Nat) → (I p : Bytes) → Nat
  srpCalcU : (A B N : Nat) → Option Nat
  srpCalcK : (N g : Nat) → Nat
  srpCalcA : (a N g : Nat) → Nat
  srpCalcB : (b N g v : Nat) → Nat
  srpVerifyAModN : (A N : Nat) → Bool
  srpVerifyBModN : (B N : Nat) → Bool
  srpCalcServerKey : (A v u b N : Nat) → Nat
  srpCalcClientKey : (N B g x a u : Nat) → Nat

/-- What the functions of OpenSSL compute. -/
structure OpenSSL.Lawful (ssl : OpenSSL) : Prop where
  one_lt : 1 < ssl.N
  coprime : ssl.g.Coprime ssl.N
  bin2bn_bn2bin : ∀ n, ssl.bnBin2bn (ssl.bnBn2bin n) = n
  createVerifier : ∀ I p salt N g, ssl.srpCreateVerifierBN I p salt N g = some (salt, g ^ ssl.srpCalcX salt I p % N)
  calcA : ∀ a N g, ssl.srpCalcA a N g = g ^ a % N
  calcB : ∀ b N g v, ssl.srpCalcB b N g v = (ssl.srpCalcK N g * v + g ^ b) % N
  /-- A number that is not reduced is refused. A digest that is 0, which would be refused too, is left out. -/
  calcU : ∀ A B N, (ssl.srpCalcU A B N).isSome ↔ A < N ∧ B < N
  verifyA : ∀ A N, ssl.srpVerifyAModN A N = decide (A % N ≠ 0)
  verifyB : ∀ B N, ssl.srpVerifyBModN B N = decide (B % N ≠ 0)
  serverKey : ∀ A v u b N, ssl.srpCalcServerKey A v u b N = (A * v ^ u) ^ b % N
  clientKey : ∀ N B g x a u, 0 < N →
    (ssl.srpCalcClientKey N B g x a u : Int) = ((B : Int) - ssl.srpCalcK N g * (g : Int) ^ x) ^ (a + u * x) % N

namespace OpenSSL

variable (ssl : OpenSSL)

def pushBn (bn : Nat) : Bytes := ssl.bnBn2bin bn

def luaTobn (s : Bytes) : Nat := ssl.bnBin2bn s

/-- A string of Lua as a function of C sees it. -/
def luaLCheckstring (s : Bytes) : Bytes := s.takeWhile (· ≠ 0)

def lcreateVerifier (I p : Bytes) (salt : Nat) : Option (Bytes × Bytes) :=
  match ssl.srpCreateVerifierBN (luaLCheckstring I) (luaLCheckstring p) salt ssl.N ssl.g with
  | none => none
  | some (s, v) => some (ssl.pushBn s, ssl.pushBn v)

def lcreateClientKey : List Nat → Option (Bytes × Bytes)
  | [] => none
  | a :: draws =>
    let A := ssl.srpCalcA a ssl.N ssl.g
    if !ssl.srpVerifyAModN A ssl.N then lcreateClientKey draws else some (ssl.pushBn a, ssl.pushBn A)

/-- The loop of `lcreate_server_session_key`. -/
def serverSecret (v : Nat) : List Nat → Option (Nat × Nat)
  | [] => none
  | b :: draws =>
    let B := ssl.srpCalcB b ssl.N ssl.g v
    if !ssl.srpVerifyBModN B ssl.N then serverSecret v draws else some (b, B)

def lcreateServerSessionKey (v A : Bytes) (draws : List Nat) : Option (Bytes × Bytes × Bytes) :=
  let v := ssl.luaTobn v
  let A := ssl.luaTobn A
  match ssl.serverSecret v draws with
  | none => none
  | some (b, B) => do
    let u ← ssl.srpCalcU A B ssl.N
    let K := ssl.srpCalcServerKey A v u b ssl.N
    return (ssl.pushBn K, ssl.pushBn b, ssl.pushBn B)

def lcreateClientSessionKey (I p s a A B : Bytes) : Option Bytes := do
  let s := ssl.luaTobn s
  let a := ssl.luaTobn a
  let A := ssl.luaTobn A
  let B := ssl.luaTobn B
  let u ← ssl.srpCalcU A B ssl.N
  let x := ssl.srpCalcX s (luaLCheckstring I) (luaLCheckstring p)
  let K := ssl.srpCalcClientKey ssl.N B ssl.g x a u
  return ssl.pushBn K

/-- A registration and a login: the key of the server and the key of the client. -/
def session (I p : Bytes) (salt : Nat) (clientDraws serverDraws : List Nat) : Option (Bytes × Bytes) := do
  let (s, v) ← ssl.lcreateVerifier I p salt
  let (a, A) ← ssl.lcreateClientKey clientDraws
  let (Ks, _, B) ← ssl.lcreateServerSessionKey v A serverDraws
  let Kc ← ssl.lcreateClientSessionKey I p s a A B
  return (Ks, Kc)

end OpenSSL

/-! ### The formulas -/

/-- The two sides of the exchange, in any ring. -/
theorem server_eq_client {R : Type} [CommRing R] (g k : R) (a b u x : Nat) :
    (g ^ a * (g ^ x) ^ u) ^ b = (k * g ^ x + g ^ b - k * g ^ x) ^ (a + u * x) := by
  rw [add_sub_cancel_left]
  ring

namespace OpenSSL.Lawful

variable {ssl : OpenSSL} (h : ssl.Lawful)
include h

theorem serverKey_eq_clientKey (a b u x : Nat) :
    ssl.srpCalcServerKey (ssl.srpCalcA a ssl.N ssl.g) (ssl.g ^ x % ssl.N) u b ssl.N =
      ssl.srpCalcClientKey ssl.N (ssl.srpCalcB b ssl.N ssl.g (ssl.g ^ x % ssl.N)) ssl.g x a u := by
  apply Int.ofNat_inj.mp
  rw [h.serverKey, h.clientKey _ _ _ _ _ _ (Nat.zero_lt_of_lt h.one_lt),
    h.calcA, h.calcB, Int.natCast_mod]
  apply (ZMod.intCast_eq_intCast_iff _ _ ssl.N).mp
  push_cast
  exact server_eq_client _ _ a b u x

theorem lcreateClientKey_cons (a : Nat) (draws : List Nat) :
    ssl.lcreateClientKey (a :: draws) = some (ssl.pushBn a, ssl.pushBn (ssl.srpCalcA a ssl.N ssl.g)) := by
  have hunit : ssl.g ^ a % ssl.N ≠ 0 := by
    intro hzero
    have hdvd : ssl.N ∣ ssl.g ^ a := Nat.dvd_of_mod_eq_zero hzero
    have hone := Nat.Coprime.eq_one_of_dvd (Nat.Coprime.pow_right a h.coprime.symm) hdvd
    have := h.one_lt
    omega
  simp [lcreateClientKey, h.verifyA, h.calcA, hunit]

theorem serverSecret_cases (v : Nat) (draws : List Nat) :
    (ssl.serverSecret v draws = none ∧ ∀ b ∈ draws, ssl.N ∣ ssl.srpCalcK ssl.N ssl.g * v + ssl.g ^ b) ∨
      ∃ b ∈ draws, ¬ ssl.N ∣ ssl.srpCalcK ssl.N ssl.g * v + ssl.g ^ b ∧
        ssl.serverSecret v draws = some (b, ssl.srpCalcB b ssl.N ssl.g v) := by
  induction draws with
  | nil => exact .inl ⟨rfl, by simp⟩
  | cons b draws ih =>
    by_cases hdvd : ssl.N ∣ ssl.srpCalcK ssl.N ssl.g * v + ssl.g ^ b
    · have hnext : ssl.serverSecret v (b :: draws) = ssl.serverSecret v draws := by
        simp [serverSecret, h.verifyB, h.calcB, Nat.mod_eq_zero_of_dvd hdvd]
      rw [hnext]
      refine ih.imp (fun ⟨hnone, hall⟩ => ⟨hnone, ?_⟩) fun ⟨b', hmem, hnot, hsome⟩ => ⟨b', ?_, hnot, hsome⟩
      · simpa [hdvd] using hall
      · exact List.mem_cons_of_mem _ hmem
    · refine .inr ⟨b, List.mem_cons_self, hdvd, ?_⟩
      simp [serverSecret, h.verifyB, h.calcB, mt Nat.dvd_of_mod_eq_zero hdvd]

theorem exists_calcU (a b v : Nat) :
    ∃ u, ssl.srpCalcU (ssl.srpCalcA a ssl.N ssl.g) (ssl.srpCalcB b ssl.N ssl.g v) ssl.N = some u := by
  have hpos := Nat.zero_lt_of_lt h.one_lt
  refine Option.isSome_iff_exists.mp ((h.calcU _ _ _).mpr ⟨?_, ?_⟩)
  · rw [h.calcA]
    exact Nat.mod_lt _ hpos
  · rw [h.calcB]
    exact Nat.mod_lt _ hpos

theorem session_of_none {I p : Bytes} {salt : Nat} {serverDraws : List Nat}
    (hnone : ssl.serverSecret (ssl.g ^ ssl.srpCalcX salt (luaLCheckstring I) (luaLCheckstring p) % ssl.N) serverDraws = none)
    (a : Nat) (clientDraws : List Nat) : ssl.session I p salt (a :: clientDraws) serverDraws = none := by
  simp only [session, lcreateVerifier, h.createVerifier, h.lcreateClientKey_cons, lcreateServerSessionKey, luaTobn, pushBn,
    h.bin2bn_bn2bin, Option.bind_eq_bind, Option.bind_some, hnone, Option.bind_none]

theorem session_of_some {I p : Bytes} {salt b : Nat} {serverDraws : List Nat}
    (hsome : ssl.serverSecret (ssl.g ^ ssl.srpCalcX salt (luaLCheckstring I) (luaLCheckstring p) % ssl.N) serverDraws =
      some (b, ssl.srpCalcB b ssl.N ssl.g (ssl.g ^ ssl.srpCalcX salt (luaLCheckstring I) (luaLCheckstring p) % ssl.N)))
    (a : Nat) (clientDraws : List Nat) :
    ∃ K, ssl.session I p salt (a :: clientDraws) serverDraws = some (ssl.pushBn K, ssl.pushBn K) := by
  obtain ⟨u, hu⟩ := h.exists_calcU a b (ssl.g ^ ssl.srpCalcX salt (luaLCheckstring I) (luaLCheckstring p) % ssl.N)
  refine ⟨ssl.srpCalcServerKey (ssl.srpCalcA a ssl.N ssl.g)
    (ssl.g ^ ssl.srpCalcX salt (luaLCheckstring I) (luaLCheckstring p) % ssl.N) u b ssl.N, ?_⟩
  simp only [session, lcreateVerifier, h.createVerifier, h.lcreateClientKey_cons, lcreateServerSessionKey,
    lcreateClientSessionKey, luaTobn, pushBn, h.bin2bn_bn2bin, Option.bind_eq_bind, Option.bind_some, hsome, hu,
    Option.pure_def, h.serverKey_eq_clientKey]

end OpenSSL.Lawful

/-! ### A registration and a login -/

/-- **Whatever the identity, the password, the salt and the secrets, the key of the client is the key of the server; and both
sides come to a key as soon as the server has drawn a secret that passes the test of `SRP_Verify_B_mod_N`.** -/
theorem session_keys_agree (ssl : OpenSSL) (h : ssl.Lawful) (I p : Bytes) (salt : Nat)
    (clientDraws serverDraws : List Nat) :
    (∀ Ks Kc, ssl.session I p salt clientDraws serverDraws = some (Ks, Kc) → Kc = Ks) ∧
      ((ssl.session I p salt clientDraws serverDraws).isSome ↔ clientDraws ≠ [] ∧ ∃ b ∈ serverDraws,
        ¬ ssl.N ∣ ssl.srpCalcK ssl.N ssl.g *
          (ssl.g ^ ssl.srpCalcX salt (OpenSSL.luaLCheckstring I) (OpenSSL.luaLCheckstring p) % ssl.N) + ssl.g ^ b) := by
  cases clientDraws with
  | nil => simp [OpenSSL.session, OpenSSL.lcreateVerifier, h.createVerifier, OpenSSL.lcreateClientKey]
  | cons a clientDraws =>
    obtain ⟨hnone, hall⟩ | ⟨b, hmem, hnot, hsome⟩ := h.serverSecret_cases
      (ssl.g ^ ssl.srpCalcX salt (OpenSSL.luaLCheckstring I) (OpenSSL.luaLCheckstring p) % ssl.N) serverDraws
    · rw [h.session_of_none hnone]
      refine ⟨by simp, iff_of_false (by simp) ?_⟩
      rintro ⟨-, b, hmem, hnot⟩
      exact hnot (hall b hmem)
    · obtain ⟨K, hsession⟩ := h.session_of_some hsome a clientDraws
      rw [hsession]
      refine ⟨?_, iff_of_true rfl ⟨List.cons_ne_nil _ _, b, hmem, hnot⟩⟩
      intro Ks Kc hkeys
      simp only [Option.some.injEq, Prod.mk.injEq] at hkeys
      rw [← hkeys.1, ← hkeys.2]

/-- OpenSSL for one user: `srpCalcX` and `srpCalcU` are the digests of the identity `jintiao`, the password `123abc*()DEF`, the
salt 1 and the secrets 5 and 3. -/
def jintiao : OpenSSL where
  N := 0xEEAF0AB9ADB38DD69C33F80AFA8FC5E86072618775FF3C0B9EA2314C9C256576D674DF7496EA81D3383B4813D692C6E0E0D5D8E250B98BE48E495C1D6089DAD15DC7D7B46154D6B6CE8EF4AD69B15D4982559B297BCF1885C529F566660E57EC68EDBC3C05726CC02FD4CBF4976EAA9AFD5138FE8376435B9FC61D2FC0EB06E3
  g := 2
  bnBn2bin n := ((Nat.digits 256 n).map UInt8.ofNat).reverse
  bnBin2bn s := Nat.ofDigits 256 (s.reverse.map UInt8.toNat)
  srpCreateVerifierBN _ _ salt N g := some (salt, g ^ 0x6a4d3f5a10be909c26ea5304e2d485de888bebfd % N)
  srpCalcX _ _ _ := 0x6a4d3f5a10be909c26ea5304e2d485de888bebfd
  srpCalcU A B N := if A < N ∧ B < N then some 0xa6996d2a308e41b7525f13f4b25ce5230b743189 else none
  srpCalcK _ _ := 0x7556aa045aef2cdd07abaf0f665c3e818913186f
  srpCalcA a N g := g ^ a % N
  srpCalcB b N g v := (0x7556aa045aef2cdd07abaf0f665c3e818913186f * v + g ^ b) % N
  srpVerifyAModN A N := A % N ≠ 0
  srpVerifyBModN B N := B % N ≠ 0
  srpCalcServerKey A v u b N := (A * v ^ u) ^ b % N
  srpCalcClientKey N B g x a u :=
    (((B : Int) - 0x7556aa045aef2cdd07abaf0f665c3e818913186f * (g : Int) ^ x) ^ (a + u * x) % N).toNat

theorem jintiao_lawful : jintiao.Lawful where
  one_lt := by decide
  coprime := by decide
  bin2bn_bn2bin n := by
    have hdigits : ((Nat.digits 256 n).map UInt8.ofNat).map UInt8.toNat = Nat.digits 256 n := by
      rw [List.map_map]
      refine (List.map_congr_left fun d hd => ?_).trans (List.map_id _)
      have hlt : d < 256 := Nat.digits_lt_base (by decide) hd
      simp [Nat.mod_eq_of_lt hlt]
    change Nat.ofDigits 256 (((Nat.digits 256 n).map UInt8.ofNat).reverse.reverse.map UInt8.toNat) = n
    rw [List.reverse_reverse, hdigits, Nat.ofDigits_digits]
  createVerifier I p salt N g := by rw [jintiao]
  calcA _ _ _ := rfl
  calcB _ _ _ _ := rfl
  calcU A B N := by by_cases hless : A < N ∧ B < N <;> simp [jintiao, hless]
  verifyA _ _ := rfl
  verifyB _ _ := rfl
  serverKey _ _ _ _ _ := rfl
  clientKey N B g x a u hN := Int.toNat_of_nonneg (Int.emod_nonneg _ (by omega))

theorem exists_not_dvd {N : Nat} (hN : 8 < N) (m : Nat) : ∃ b ∈ [3, 4], ¬ N ∣ m + 2 ^ b := by
  by_contra hall
  push Not at hall
  have hdvd : N ∣ m + 2 ^ 4 - (m + 2 ^ 3) := Nat.dvd_sub (hall 4 (by simp)) (hall 3 (by simp))
  have hle := Nat.le_of_dvd (by omega) hdvd
  omega

theorem session_keys_agree_jintiao :
    ∃ K, jintiao.session [106, 105, 110, 116, 105, 97, 111] [49, 50, 51, 97, 98, 99, 42, 40, 41, 68, 69, 70] 1 [5] [3, 4] =
      some (K, K) := by
  obtain ⟨hagree, hsome⟩ := session_keys_agree jintiao jintiao_lawful [106, 105, 110, 116, 105, 97, 111]
    [49, 50, 51, 97, 98, 99, 42, 40, 41, 68, 69, 70] 1 [5] [3, 4]
  obtain ⟨⟨Ks, Kc⟩, hkeys⟩ := Option.isSome_iff_exists.mp
    (hsome.mpr ⟨by simp, exists_not_dvd (Nat.lt_of_sub_pos (by decide)) _⟩)
  obtain rfl := hagree Ks Kc hkeys
  exact ⟨Kc, hkeys⟩

/-! ### The key of a client that knows no password -/

namespace OpenSSL

/-- An `A` forces the key: the server does return one, and it is 0 whatever the verifier and the secret above 0 are. -/
def Forced (ssl : OpenSSL) (A : Bytes) : Prop :=
  (∃ v draws K b B, ssl.lcreateServerSessionKey v A draws = some (K, b, B) ∧ 0 < ssl.luaTobn b) ∧
    ∀ v draws K b B, ssl.lcreateServerSessionKey v A draws = some (K, b, B) → 0 < ssl.luaTobn b → ssl.luaTobn K = 0

end OpenSSL

namespace OpenSSL.Lawful

variable {ssl : OpenSSL} (h : ssl.Lawful)
include h

/-- What the server returns: nothing without a secret or to an `A` that is not reduced. It looks at nothing else of `A`. -/
theorem lcreateServerSessionKey_cases (v A : Bytes) (draws : List Nat) :
    (ssl.lcreateServerSessionKey v A draws = none ∧ (ssl.N ≤ ssl.luaTobn A ∨
        ∀ b ∈ draws, ssl.N ∣ ssl.srpCalcK ssl.N ssl.g * ssl.luaTobn v + ssl.g ^ b)) ∨
      ssl.luaTobn A < ssl.N ∧
        ∃ b ∈ draws, ¬ ssl.N ∣ ssl.srpCalcK ssl.N ssl.g * ssl.luaTobn v + ssl.g ^ b ∧ ∃ u B,
          ssl.lcreateServerSessionKey v A draws =
            some (ssl.pushBn ((ssl.luaTobn A * ssl.luaTobn v ^ u) ^ b % ssl.N), ssl.pushBn b, ssl.pushBn B) := by
  obtain ⟨hnone, hall⟩ | ⟨b, hmem, hnot, hsome⟩ := h.serverSecret_cases (ssl.luaTobn v) draws
  · refine .inl ⟨?_, .inr hall⟩
    simp only [lcreateServerSessionKey, hnone]
  · have hB : ssl.srpCalcB b ssl.N ssl.g (ssl.luaTobn v) < ssl.N := by
      rw [h.calcB]
      exact Nat.mod_lt _ (Nat.zero_lt_of_lt h.one_lt)
    have hcalc := h.calcU (ssl.luaTobn A) (ssl.srpCalcB b ssl.N ssl.g (ssl.luaTobn v)) ssl.N
    cases hu : ssl.srpCalcU (ssl.luaTobn A) (ssl.srpCalcB b ssl.N ssl.g (ssl.luaTobn v)) ssl.N with
    | none =>
      rw [hu] at hcalc
      refine .inl ⟨?_, .inl (Nat.le_of_not_lt fun hA => Bool.false_ne_true (hcalc.mpr ⟨hA, hB⟩))⟩
      simp only [lcreateServerSessionKey, hsome, hu, Option.bind_eq_bind, Option.bind_none]
    | some u =>
      rw [hu] at hcalc
      refine .inr ⟨(hcalc.mp rfl).1, b, hmem, hnot, u, ssl.srpCalcB b ssl.N ssl.g (ssl.luaTobn v), ?_⟩
      simp only [lcreateServerSessionKey, hsome, hu, h.serverKey, Option.bind_eq_bind, Option.bind_some, Option.pure_def]

/-- An `A` that is 0 fixes the key. -/
theorem luaTobn_key_eq_zero {v A K b B : Bytes} {draws : List Nat} (hA : ssl.luaTobn A = 0)
    (hkey : ssl.lcreateServerSessionKey v A draws = some (K, b, B)) (hb : 0 < ssl.luaTobn b) : ssl.luaTobn K = 0 := by
  obtain ⟨hnone, -⟩ | ⟨-, b', -, -, u, B', hsome⟩ := h.lcreateServerSessionKey_cases v A draws
  · rw [hnone] at hkey
    cases hkey
  · rw [hsome] at hkey
    simp only [Option.some.injEq, Prod.mk.injEq] at hkey
    obtain ⟨rfl, rfl, -⟩ := hkey
    simp only [luaTobn, pushBn, h.bin2bn_bn2bin] at hA hb ⊢
    rw [hA, Nat.zero_mul, Nat.zero_pow hb, Nat.zero_mod]

/-- One of the verifiers `1` and `N - 1` lets the secret `1` pass the test. -/
theorem exists_verifier (hN : 2 < ssl.N) :
    ∃ v, v.Coprime ssl.N ∧ ¬ ssl.N ∣ ssl.srpCalcK ssl.N ssl.g * v + ssl.g ^ 1 := by
  by_contra hall
  push Not at hall
  have hpred : (ssl.N - 1).Coprime ssl.N := by
    rw [Nat.coprime_comm]
    exact Nat.coprime_self_sub_right (by omega) |>.mpr (Nat.coprime_one_right _)
  have hsum := Nat.dvd_add (hall 1 (Nat.coprime_one_left _)) (hall (ssl.N - 1) hpred)
  have heq : ssl.srpCalcK ssl.N ssl.g * 1 + ssl.g ^ 1 + (ssl.srpCalcK ssl.N ssl.g * (ssl.N - 1) + ssl.g ^ 1) =
      ssl.N * ssl.srpCalcK ssl.N ssl.g + ssl.g * 2 := by
    obtain ⟨n, hn⟩ : ∃ n, ssl.N = n + 1 := ⟨ssl.N - 1, by omega⟩
    rw [hn, Nat.add_sub_cancel]
    ring
  rw [heq, Nat.dvd_add_right (dvd_mul_right _ _)] at hsum
  have hle := Nat.le_of_dvd (by decide) (h.coprime.symm.dvd_of_dvd_mul_left hsum)
  omega

/-- A reduced `A` gets a key in a run with the secret `1`, which is 0 only if `A` is. -/
theorem exists_key (hN : 2 < ssl.N) {A : Bytes} (hA : ssl.luaTobn A < ssl.N) :
    ∃ v draws K b B, ssl.lcreateServerSessionKey v A draws = some (K, b, B) ∧ 0 < ssl.luaTobn b ∧
      (ssl.luaTobn K = 0 → ssl.luaTobn A = 0) := by
  obtain ⟨v, hcoprime, hnot⟩ := h.exists_verifier hN
  refine ⟨ssl.bnBn2bin v, [1], ?_⟩
  have hv : ssl.luaTobn (ssl.bnBn2bin v) = v := h.bin2bn_bn2bin v
  obtain ⟨-, hlarge | hall⟩ | ⟨-, b, hmem, -, u, B, hsome⟩ := h.lcreateServerSessionKey_cases (ssl.bnBn2bin v) A [1]
  · exact absurd hA (Nat.not_lt.mpr hlarge)
  · rw [hv] at hall
    exact absurd (hall 1 (List.mem_singleton_self 1)) hnot
  · obtain rfl := List.mem_singleton.mp hmem
    refine ⟨_, _, _, hsome, ?_, ?_⟩
    · simp only [luaTobn, pushBn, h.bin2bn_bn2bin, Nat.one_pos]
    · rw [hv]
      simp only [luaTobn, pushBn, h.bin2bn_bn2bin, pow_one]
      intro hzero
      have hdvd := (hcoprime.pow_left u).symm.dvd_of_dvd_mul_right (Nat.dvd_of_mod_eq_zero hzero)
      exact Nat.eq_zero_of_dvd_of_lt hdvd hA

theorem forced_iff (hN : 2 < ssl.N) (A : Bytes) : ssl.Forced A ↔ ssl.luaTobn A = 0 := by
  constructor
  · rintro ⟨⟨v, draws, K, b, B, hkey, -⟩, hall⟩
    obtain ⟨hnone, -⟩ | ⟨hA, -⟩ := h.lcreateServerSessionKey_cases v A draws
    · rw [hnone] at hkey
      cases hkey
    · obtain ⟨v', draws', K', b', B', hkey', hb', hzero⟩ := h.exists_key hN hA
      exact hzero (hall v' draws' K' b' B' hkey' hb')
  · intro hA
    obtain ⟨v, draws, K, b, B, hkey, hb, -⟩ := h.exists_key hN (A := A) (by omega)
    exact ⟨⟨v, draws, K, b, B, hkey, hb⟩, fun _ _ _ _ _ hkey hb => h.luaTobn_key_eq_zero hA hkey hb⟩

end OpenSSL.Lawful

/-- **Degenerate keys.** The server only returns a key to an `A` that is not 0 modulo `N` exactly when `A` is not 0, or none of
its secrets passes the test of `SRP_Verify_B_mod_N`; and an `A` forces the key to be 0 in all runs exactly when it is 0. The
other multiples of `N` get no key: they end the process. -/
theorem key_refused_iff_not_degenerate (ssl : OpenSSL) (h : ssl.Lawful) (hN : 2 < ssl.N) (v A : Bytes) (draws : List Nat) :
    ((∀ K b B, ssl.lcreateServerSessionKey v A draws = some (K, b, B) → ssl.luaTobn A % ssl.N ≠ 0) ↔
      ssl.luaTobn A ≠ 0 ∨ ∀ b ∈ draws, ssl.N ∣ ssl.srpCalcK ssl.N ssl.g * ssl.luaTobn v + ssl.g ^ b) ∧
    (¬ ssl.Forced A ↔ ssl.luaTobn A ≠ 0) ∧
    (ssl.N ≤ ssl.luaTobn A → ssl.lcreateServerSessionKey v A draws = none) := by
  refine ⟨?_, not_congr (h.forced_iff hN A), fun hlarge => ?_⟩
  · obtain ⟨hnone, hwhy⟩ | ⟨hA, b, hmem, hnot, u, B, hsome⟩ := h.lcreateServerSessionKey_cases v A draws
    · refine iff_of_true (fun K b B hkey => ?_) (hwhy.imp_left fun hlarge => by omega)
      rw [hnone] at hkey
      cases hkey
    · refine ⟨fun hrefused => .inl fun hzero => hrefused _ _ _ hsome (by rw [hzero, Nat.zero_mod]), ?_⟩
      rintro (hne | hall)
      · exact fun _ _ _ _ => by rwa [Nat.mod_eq_of_lt hA]
      · exact absurd (hall b hmem) hnot
  · obtain ⟨hnone, -⟩ | ⟨hA, -⟩ := h.lcreateServerSessionKey_cases v A draws
    · exact hnone
    · omega

/-- The key `2` of a client. -/
theorem key_refused_iff_not_degenerate_jintiao :
    jintiao.luaTobn [2] ≠ 0 ∧ ¬ jintiao.Forced [2] := by
  have hA : jintiao.luaTobn [2] ≠ 0 := by decide
  exact ⟨hA, (key_refused_iff_not_degenerate jintiao jintiao_lawful (Nat.lt_of_sub_pos (by decide)) [1] [2] [3, 4]).2.1.mpr hA⟩

/-- A client that sends the byte 0 for its key gets a key, which is 0. -/
theorem not_key_refused_zero :
    ¬ ∀ (ssl : OpenSSL), ssl.Lawful → 2 < ssl.N → ∀ (v A : Bytes) (draws : List Nat) (K b B : Bytes),
      ssl.lcreateServerSessionKey v A draws = some (K, b, B) → ssl.luaTobn A % ssl.N ≠ 0 := by
  intro hall
  obtain ⟨-, hlarge | hdvd⟩ | ⟨-, b, -, -, u, B, hsome⟩ := jintiao_lawful.lcreateServerSessionKey_cases [1] [0] [3, 4]
  · exact absurd hlarge (by decide)
  · obtain ⟨b, hmem, hnot⟩ := exists_not_dvd (N := jintiao.N) (Nat.lt_of_sub_pos (by decide))
      (jintiao.srpCalcK jintiao.N jintiao.g * jintiao.luaTobn [1])
    exact hnot (hdvd b hmem)
  · exact hall jintiao jintiao_lawful (Nat.lt_of_sub_pos (by decide)) [1] [0] [3, 4] _ _ _ hsome (by decide)

end SkynetServer.Srp
