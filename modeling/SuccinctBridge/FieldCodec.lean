import Mathlib.Data.ZMod.Defs
import Mathlib.Data.String.Basic
import Mathlib.Data.Nat.Digits
import Mathlib.Tactic.IntervalCases
import Mathlib.Tactic.Ring
import SuccinctBridge.Bytes

/-!
# Field elements from decimal strings (`CircomProof::to_proof`, `PublicSignals::get`)

A relayer submits a Groth16 proof as snarkjs writes it, every coordinate a decimal string, and the
public signals the same way. `to_proof` reads the coordinates with `Fp256::from_str` into the
base field `Fq` of BN254 and builds finite affine points; `get` reads each signal into the scalar
field `Fr`. Every `unwrap` and every index past the end of a vector panics.

`from_str` of ark-ff 0.3 refuses the empty string, a non-digit and a leading zero, and otherwise
folds the digits into the field, `res = res * 10 + digit`. So it accepts exactly the numerals
`toString n` of all naturals, of any size, and reads each modulo the prime (`fromStr_eq_ok_iff`):
the numeral of the prime itself is read as zero.
-/

namespace SuccinctBridge

/-- `Fq::MODULUS`, the prime of the base field of BN254. -/
def bn254Fq : Nat := 21888242871839275222246405745257275088696311157297823662689037894645226208583

/-- `Fr::MODULUS`, the prime of the scalar field of BN254. -/
def bn254Fr : Nat := 21888242871839275222246405745257275088548364400416034343698204186575808495617

instance neZero_bn254Fq : NeZero bn254Fq := ⟨by decide⟩

instance neZero_bn254Fr : NeZero bn254Fr := ⟨by decide⟩

/-- `char::to_digit(10)`. -/
def toDigit (c : Char) : Option Nat := if c.isDigit then some (c.toNat - 48) else none

/-- The loop of `from_str` over the characters: `res = res * 10 + digit`, refusing a non-digit
and a leading zero while `firstDigit` holds. -/
def fromStrLoop (p : Nat) [NeZero p] : Bool → Fin p → List Char → Except Unit (Fin p)
  | _, res, [] => .ok res
  | firstDigit, res, c :: cs =>
    match toDigit c with
    | some d => if firstDigit && d == 0 then .error () else fromStrLoop p false (res * 10 + d) cs
    | none => .error ()

/-- `Fp256::from_str` of ark-ff 0.3 in the field of prime `p`. Its closing `is_valid` check holds
of every value the loop computes and is left out. -/
def fromStr (p : Nat) [NeZero p] (s : String) : Except Unit (Fin p) :=
  if s.isEmpty then .error ()
  else if s = "0" then .ok 0
  else fromStrLoop p true 0 s.toList

/-! ### Decimal numerals -/

theorem toDigit_digitChar {d : Nat} (h : d < 10) : toDigit (Nat.digitChar d) = some d := by
  interval_cases d <;> rfl

theorem digitChar_of_toDigit {c : Char} {d : Nat} (h : toDigit c = some d) :
    Nat.digitChar d = c ∧ d < 10 := by
  unfold toDigit at h
  split_ifs at h with hc
  cases h
  simp only [Char.isDigit, Bool.and_eq_true, decide_eq_true_eq] at hc
  have h1 : 48 ≤ c.toNat := hc.1
  have h2 : c.toNat ≤ 57 := hc.2
  refine ⟨?_, by omega⟩
  obtain ⟨k, hk, hck⟩ : ∃ k, k < 10 ∧ c.toNat = 48 + k := ⟨c.toNat - 48, by omega, by omega⟩
  have hc' : c = Char.ofNat (48 + k) := by rw [← hck, Char.ofNat_toNat]
  rw [hck, Nat.add_sub_cancel_left, hc']
  interval_cases k <;> rfl

theorem toDigitsCore_ten (n : Nat) :
    ∀ fuel ds, n < fuel → Nat.toDigitsCore 10 fuel n ds = Nat.toDigits 10 n ++ ds := by
  induction n using Nat.strong_induction_on with
  | _ n ih =>
    intro fuel ds h
    obtain ⟨f, rfl⟩ := Nat.exists_eq_add_of_lt h
    simp only [Nat.toDigits, Nat.toDigitsCore]
    split_ifs with h0
    · rfl
    · have hlt : n / 10 < n := Nat.div_lt_self (by omega) (by decide)
      rw [ih _ hlt _ _ (by omega), ih _ hlt _ _ (by omega), List.append_assoc]
      rfl

theorem toDigits_ten (n : Nat) :
    Nat.toDigits 10 n =
      if n < 10 then [Nat.digitChar n] else Nat.toDigits 10 (n / 10) ++ [Nat.digitChar (n % 10)] := by
  conv_lhs => rw [Nat.toDigits, Nat.toDigitsCore]
  split_ifs with h0 h10 h10
  · rw [Nat.mod_eq_of_lt h10]
  · omega
  · omega
  · exact toDigitsCore_ten _ _ _ (Nat.div_lt_self (by omega) (by decide))

theorem toDigits_of_lt {d : Nat} (hd : d < 10) : Nat.toDigits 10 d = [Nat.digitChar d] := by
  rw [toDigits_ten, if_pos hd]

theorem toDigits_mul_add {m d : Nat} (hm : 0 < m) (hd : d < 10) :
    Nat.toDigits 10 (m * 10 + d) = Nat.toDigits 10 m ++ [Nat.digitChar d] := by
  rw [toDigits_ten, if_neg (by omega)]
  congr 3 <;> omega

theorem toDigits_ne_nil (n : Nat) : Nat.toDigits 10 n ≠ [] := by
  rw [toDigits_ten]; split_ifs <;> simp

theorem head_toDigits_ne_zero {n : Nat} (hn : 0 < n) : (Nat.toDigits 10 n).head? ≠ some '0' := by
  induction n using Nat.strong_induction_on with
  | _ n ih =>
    rw [toDigits_ten]
    split_ifs with h
    · intro h0
      have hd := toDigit_digitChar h
      simp only [List.head?_cons, Option.some.injEq] at h0
      rw [h0] at hd
      have h48 : '0'.toNat = 48 := rfl
      exact absurd (Option.some.inj hd) (by omega)
    · rw [List.head?_append_of_ne_nil _ (toDigits_ne_nil _)]
      exact ih _ (Nat.div_lt_self hn (by decide)) (by omega)

section
variable {p : Nat} [NeZero p]

theorem fromStrLoop_append (l₁ l₂ : List Char) (r : Fin p) :
    fromStrLoop p false r (l₁ ++ l₂) = fromStrLoop p false r l₁ >>= fun r' => fromStrLoop p false r' l₂ := by
  induction l₁ generalizing r with
  | nil => rfl
  | cons c cs ih =>
    simp only [List.cons_append, fromStrLoop, Bool.false_and, Bool.false_eq_true, if_false]
    cases toDigit c with
    | none => rfl
    | some d => exact ih _

theorem fromStrLoop_toDigits (n : Nat) (r : Fin p) :
    fromStrLoop p false r (Nat.toDigits 10 n) = .ok (r * 10 ^ (Nat.toDigits 10 n).length + n) := by
  induction n using Nat.strong_induction_on generalizing r with
  | _ n ih =>
    rw [toDigits_ten]
    split_ifs with h
    · simp [fromStrLoop, toDigit_digitChar h]
    · have hn : (n : Fin p) = ((10 * (n / 10) + n % 10 : Nat) : Fin p) := by rw [Nat.div_add_mod]
      push_cast at hn
      rw [fromStrLoop_append, ih _ (Nat.div_lt_self (by omega) (by decide)), Except.ok_bind]
      simp only [fromStrLoop, toDigit_digitChar (Nat.mod_lt n (by decide : 10 > 0)), Bool.false_and,
        Bool.false_eq_true, if_false, List.length_append, List.length_singleton, pow_succ, hn]
      ring_nf

theorem fromStrLoop_true_of_head {l : List Char} (h : l.head? ≠ some '0') (r : Fin p) :
    fromStrLoop p true r l = fromStrLoop p false r l := by
  match l, h with
  | [], _ => rfl
  | c :: cs, h =>
    simp only [fromStrLoop]
    cases hc : toDigit c with
    | none => rfl
    | some d =>
      have hd : d ≠ 0 := by
        rintro rfl
        exact h (by simp [← (digitChar_of_toDigit hc).1]; rfl)
      simp [hd]

theorem exists_toDigits_of_fromStrLoop :
    ∀ (l : List Char) (m : Nat) {x : Fin p}, 0 < m → fromStrLoop p false (m : Fin p) l = .ok x →
      ∃ n, Nat.toDigits 10 n = Nat.toDigits 10 m ++ l ∧ x = n
  | [], m, x, _, h => ⟨m, by simp, by cases h; rfl⟩
  | c :: cs, m, x, hm, h => by
    simp only [fromStrLoop, Bool.false_and, Bool.false_eq_true, if_false] at h
    cases hc : toDigit c with
    | none => rw [hc] at h; cases h
    | some d =>
      rw [hc] at h
      dsimp only at h
      obtain ⟨hcd, hd⟩ := digitChar_of_toDigit hc
      have hcast : (m : Fin p) * 10 + (d : Fin p) = ((m * 10 + d : Nat) : Fin p) := by push_cast; rfl
      rw [hcast] at h
      obtain ⟨n, hn, rfl⟩ := exists_toDigits_of_fromStrLoop cs (m * 10 + d) (by omega) h
      exact ⟨n, by rw [hn, toDigits_mul_add hm hd, hcd]; simp, rfl⟩

/-- What the loop accepts from its first digit on is the numeral of a positive number. -/
theorem exists_toDigits_of_fromStrLoop_true {c : Char} {cs : List Char} {x : Fin p}
    (h : fromStrLoop p true 0 (c :: cs) = .ok x) : ∃ n, Nat.toDigits 10 n = c :: cs ∧ x = n := by
  simp only [fromStrLoop] at h
  cases hc : toDigit c with
  | none => rw [hc] at h; cases h
  | some d =>
    rw [hc] at h
    dsimp only at h
    obtain ⟨hcd, hd⟩ := digitChar_of_toDigit hc
    split_ifs at h with hd0
    rw [zero_mul, zero_add] at h
    obtain ⟨n, hn, rfl⟩ := exists_toDigits_of_fromStrLoop cs d (by simp at hd0; omega) h
    exact ⟨n, by rw [hn, toDigits_of_lt hd, hcd]; rfl, rfl⟩

theorem toList_toString (n : Nat) : (toString n).toList = Nat.toDigits 10 n := rfl

/-- `from_str` accepts exactly the decimal numerals `toString n` of the naturals, of any size, and
reads each modulo `p`. -/
theorem fromStr_eq_ok_iff {s : String} {x : Fin p} :
    fromStr p s = .ok x ↔ ∃ n : Nat, s = toString n ∧ x = n := by
  constructor
  · intro h
    unfold fromStr at h
    split_ifs at h with he h0
    · cases h; exact ⟨0, h0, by simp⟩
    · have hne : s.toList ≠ [] := fun hn => he (by
        rw [String.isEmpty_iff, ← String.asString_toList s, hn]; rfl)
      obtain ⟨c, cs, hl⟩ := List.exists_cons_of_ne_nil hne
      rw [hl] at h
      obtain ⟨n, hn, rfl⟩ := exists_toDigits_of_fromStrLoop_true h
      exact ⟨n, by rw [← String.asString_toList s, hl, ← hn]; rfl, rfl⟩
  · rintro ⟨n, rfl, rfl⟩
    rcases Nat.eq_zero_or_pos n with rfl | hn
    · simp [fromStr]; rfl
    · have hne : toString n ≠ "" := fun h => toDigits_ne_nil n (by rw [← toList_toString, h]; rfl)
      have h0 : toString n ≠ "0" := fun h => head_toDigits_ne_zero hn (by rw [← toList_toString, h]; rfl)
      rw [fromStr, if_neg (by rwa [String.isEmpty_iff]), if_neg h0, toList_toString,
        fromStrLoop_true_of_head (head_toDigits_ne_zero hn), fromStrLoop_toDigits]
      simp

example : fromStr bn254Fq "007" = .error () := by decide

end

/-! ### Proofs and public signals -/

/-- An element of the base field `Fq`. -/
abbrev Fq := Fin bn254Fq

/-- An element of the scalar field `Fr`. -/
abbrev Fr := Fin bn254Fr

/-- `QuadExtField`, the element `c0 + c1·u` of `Fq2`. -/
structure QuadExtField where
  c0 : Fq
  c1 : Fq
deriving DecidableEq, Repr

/-- `G1Affine` of ark-ec 0.3: the coordinates and the flag of the point at infinity. -/
structure G1Affine where
  x : Fq
  y : Fq
  infinity : Bool
deriving DecidableEq, Repr

/-- `G2Affine` of ark-ec 0.3. -/
structure G2Affine where
  x : QuadExtField
  y : QuadExtField
  infinity : Bool
deriving DecidableEq, Repr

/-- `ark_groth16::Proof<Bn254>`. -/
structure Proof where
  a : G1Affine
  b : G2Affine
  c : G1Affine
deriving DecidableEq, Repr

/-- `CircomProof`, the proof as snarkjs writes it. -/
structure CircomProof where
  piA : List String
  piB : List (List String)
  piC : List String
  protocol : String
  curve : String
deriving DecidableEq, Repr

/-- `CircomProof::new`. -/
def CircomProof.new (a : List String) (b : List (List String)) (c : List String) : CircomProof :=
  ⟨a, b, c, "groth16", "bn128"⟩

/-- `Fp256::from_str(&v[i]).unwrap()`: panics past the end of `v` and on a string that
`from_str` refuses. -/
def readFq (v : List String) (i : Nat) : Option Fq := do (fromStr bn254Fq (← v[i]?)).toOption

/-- `new(Fp256::from_str(&v[0]).unwrap(), Fp256::from_str(&v[1]).unwrap())`, the shape of each
of the four constructor calls of `to_proof`. -/
def newFromStrs {β : Type} (new : Fq → Fq → β) (v : List String) : Option β := do
  pure (new (← readFq v 0) (← readFq v 1))

/-- `CircomProof::to_proof`. -/
def CircomProof.toProof (self : CircomProof) : Option Proof := do
  let a ← newFromStrs (fun x y => G1Affine.mk x y false) self.piA
  let b : G2Affine := ⟨← newFromStrs QuadExtField.mk (← self.piB[0]?),
    ← newFromStrs QuadExtField.mk (← self.piB[1]?), false⟩
  let c ← newFromStrs (fun x y => G1Affine.mk x y false) self.piC
  pure ⟨a, b, c⟩

/-- `PublicSignals`. -/
structure PublicSignals where
  signals : List String
deriving DecidableEq, Repr

/-- The body of the loop of `get`: `inputs.push(Fr::from_str(&input).unwrap())`. -/
def pushFromStr (inputs : List Fr) (input : String) : Option (List Fr) := do
  pure (inputs ++ [← (fromStr bn254Fr input).toOption])

/-- `PublicSignals::get`. -/
def PublicSignals.get (self : PublicSignals) : Option (List Fr) :=
  self.signals.foldlM pushFromStr []

theorem toOption_fromStr_eq_some {p : Nat} [NeZero p] {s : String} {x : Fin p} :
    (fromStr p s).toOption = some x ↔ ∃ n : Nat, s = toString n ∧ x = n := by
  rw [← fromStr_eq_ok_iff]
  cases fromStr p s <;> simp [Except.toOption]

theorem take_two_eq {α : Type} {v : List α} {a b : α} :
    v.take 2 = [a, b] ↔ v[0]? = some a ∧ v[1]? = some b := by
  rcases v with _ | ⟨x, _ | ⟨y, v⟩⟩ <;> simp

theorem newFromStrs_eq_some {β : Type} {new : Fq → Fq → β} {v : List String} {r : β} :
    newFromStrs new v = some r ↔
      ∃ m n : Nat, v.take 2 = [toString m, toString n] ∧ r = new m n := by
  simp only [newFromStrs, readFq, Option.bind_eq_bind, Option.bind_eq_some, toOption_fromStr_eq_some,
    take_two_eq, Option.pure_def, Option.some.injEq]
  constructor
  · rintro ⟨x, ⟨s, hs, m, rfl, rfl⟩, y, ⟨s', hs', n, rfl, rfl⟩, rfl⟩
    exact ⟨m, n, ⟨hs, hs'⟩, rfl⟩
  · rintro ⟨m, n, ⟨hs, hs'⟩, rfl⟩
    exact ⟨_, ⟨_, hs, m, rfl, rfl⟩, _, ⟨_, hs', n, rfl, rfl⟩, rfl⟩

theorem toProof_eq_some {self : CircomProof} {pr : Proof} :
    self.toProof = some pr ↔
      ∃ (a₀ a₁ b₀₀ b₀₁ b₁₀ b₁₁ c₀ c₁ : Nat) (b₀ b₁ : List String),
        self.piA.take 2 = [toString a₀, toString a₁] ∧ self.piB.take 2 = [b₀, b₁] ∧
        b₀.take 2 = [toString b₀₀, toString b₀₁] ∧ b₁.take 2 = [toString b₁₀, toString b₁₁] ∧
        self.piC.take 2 = [toString c₀, toString c₁] ∧
        pr = ⟨⟨a₀, a₁, false⟩, ⟨⟨b₀₀, b₀₁⟩, ⟨b₁₀, b₁₁⟩, false⟩, ⟨c₀, c₁, false⟩⟩ := by
  simp only [CircomProof.toProof, Option.bind_eq_bind, Option.bind_eq_some, newFromStrs_eq_some,
    Option.pure_def, Option.some.injEq]
  constructor
  · rintro ⟨_, ⟨a₀, a₁, ha, rfl⟩, b₀, hb₀, _, ⟨b₀₀, b₀₁, hb0, rfl⟩, b₁, hb₁, _, ⟨b₁₀, b₁₁, hb1, rfl⟩,
      _, ⟨c₀, c₁, hc, rfl⟩, rfl⟩
    exact ⟨a₀, a₁, b₀₀, b₀₁, b₁₀, b₁₁, c₀, c₁, b₀, b₁, ha, take_two_eq.2 ⟨hb₀, hb₁⟩, hb0, hb1, hc, rfl⟩
  · rintro ⟨a₀, a₁, b₀₀, b₀₁, b₁₀, b₁₁, c₀, c₁, b₀, b₁, ha, hb, hb0, hb1, hc, rfl⟩
    obtain ⟨hb₀, hb₁⟩ := take_two_eq.1 hb
    exact ⟨_, ⟨a₀, a₁, ha, rfl⟩, b₀, hb₀, _, ⟨b₀₀, b₀₁, hb0, rfl⟩, b₁, hb₁, _, ⟨b₁₀, b₁₁, hb1, rfl⟩,
      _, ⟨c₀, c₁, hc, rfl⟩, rfl⟩

theorem pushFromStr_eq_some {inputs r : List Fr} {input : String} :
    pushFromStr inputs input = some r ↔ ∃ n : Nat, input = toString n ∧ r = inputs ++ [(n : Fr)] := by
  simp only [pushFromStr, Option.bind_eq_bind, Option.bind_eq_some, toOption_fromStr_eq_some,
    Option.pure_def, Option.some.injEq]
  constructor
  · rintro ⟨_, ⟨n, rfl, rfl⟩, rfl⟩; exact ⟨n, rfl, rfl⟩
  · rintro ⟨n, rfl, rfl⟩; exact ⟨_, ⟨n, rfl, rfl⟩, rfl⟩

theorem foldlM_pushFromStr (signals : List String) (acc xs : List Fr) :
    signals.foldlM pushFromStr acc = some xs ↔
      ∃ ns : List Nat, signals = ns.map toString ∧ xs = acc ++ ns.map Nat.cast := by
  induction signals generalizing acc with
  | nil =>
    simp only [List.foldlM_nil, Option.pure_def, Option.some.injEq]
    constructor
    · rintro rfl; exact ⟨[], rfl, by simp⟩
    · rintro ⟨_ | _, h, rfl⟩
      · simp
      · cases h
  | cons s ss ih =>
    simp only [List.foldlM_cons, Option.bind_eq_bind, Option.bind_eq_some, pushFromStr_eq_some, ih]
    constructor
    · rintro ⟨_, ⟨n, rfl, rfl⟩, ns, rfl, rfl⟩
      exact ⟨n :: ns, rfl, by simp⟩
    · rintro ⟨_ | ⟨n, ns⟩, h, rfl⟩
      · cases h
      · simp only [List.map_cons, List.cons.injEq] at h
        exact ⟨_, ⟨n, h.1, rfl⟩, ns, h.2, by simp⟩

/-- `to_proof` succeeds exactly when `pi_a` and `pi_c` hold two strings and `pi_b` two vectors of
two strings each, all eight decimal numerals `toString n` of any size; each coordinate is then `n`
modulo the prime of `Fq`, and every point is finite. `get` succeeds exactly when every signal is
such a numeral, and keeps their order, modulo the prime of `Fr`. -/
theorem toProof_get_numerals :
    (∀ (self : CircomProof) (pr : Proof), self.toProof = some pr ↔
      ∃ (a₀ a₁ b₀₀ b₀₁ b₁₀ b₁₁ c₀ c₁ : Nat) (b₀ b₁ : List String),
        self.piA.take 2 = [toString a₀, toString a₁] ∧ self.piB.take 2 = [b₀, b₁] ∧
        b₀.take 2 = [toString b₀₀, toString b₀₁] ∧ b₁.take 2 = [toString b₁₀, toString b₁₁] ∧
        self.piC.take 2 = [toString c₀, toString c₁] ∧
        pr = ⟨⟨a₀, a₁, false⟩, ⟨⟨b₀₀, b₀₁⟩, ⟨b₁₀, b₁₁⟩, false⟩, ⟨c₀, c₁, false⟩⟩) ∧
    (∀ (ps : PublicSignals) (xs : List Fr), ps.get = some xs ↔
      ∃ ns : List Nat, ps.signals = ns.map toString ∧ xs = ns.map Nat.cast) :=
  ⟨fun _ _ => toProof_eq_some, fun ps xs => by
    rw [PublicSignals.get, foldlM_pushFromStr]; simp only [List.nil_append]⟩

set_option maxRecDepth 20000 in
/-- The numeral of the prime of `Fq` is accepted and read as zero, as "0" is. -/
theorem toProof_modulus_numeral :
    (CircomProof.new
        ["21888242871839275222246405745257275088696311157297823662689037894645226208583", "1"]
        [["0", "0"], ["0", "0"]] ["0", "0"]).toProof =
      (CircomProof.new ["0", "1"] [["0", "0"], ["0", "0"]] ["0", "0"]).toProof ∧
    (CircomProof.new ["0", "1"] [["0", "0"], ["0", "0"]] ["0", "0"]).toProof.isSome := by
  decide

end SuccinctBridge
