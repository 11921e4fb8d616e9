import SocksChain.Text.Decimal
import SocksChain.Text.Hex

/-!
Numbers as digits. A number is read from the texts that denote it and from no others; what is printed
in decimal is read back, and a text of digits without a leading zero is what is printed of its value.
Hexadecimal digits are read back one by one.
-/

namespace SocksChain.Text

namespace Decimal

theorem digit?_digitChar {n : Nat} (h : n < 10) : digit? n.digitChar = some n := by
  have all : ∀ k : Fin 10, digit? (Nat.digitChar k) = some k.val := by decide
  exact all ⟨n, h⟩

theorem lt_of_digit? {c : Char} {d : Nat} (h : digit? c = some d) : d < 10 := by
  unfold digit? at h
  split at h
  · rename_i hc
    have hle : c.toNat ≤ '9'.toNat := hc.2
    have h9 : '9'.toNat - '0'.toNat = 9 := rfl
    cases h
    omega
  · cases h

theorem digitChar_of_digit? {c : Char} {d : Nat} (h : digit? c = some d) : d.digitChar = c := by
  have hd := lt_of_digit? h
  unfold digit? at h
  split at h
  · rename_i hc
    have hle : '0'.toNat ≤ c.toNat := hc.1
    have hn : c.toNat = ('0'.toNat + d) := by
      cases h
      omega
    have all : ∀ k : Fin 10, Nat.digitChar k = Char.ofNat ('0'.toNat + k.val) := by decide
    rw [← Char.ofNat_toNat c, hn]
    exact all ⟨d, hd⟩
  · cases h

theorem value?_append (acc : Nat) (a b : List Char) :
    value? acc (a ++ b) = (value? acc a).bind fun v => value? v b := by
  induction a generalizing acc with
  | nil => rfl
  | cons c a ih =>
    rw [List.cons_append, value?, value?]
    cases digit? c with
    | none => rfl
    | some d => exact ih _

/-- The texts that a number may be read from: an optional plus sign in front of its digits, of
which there may be any number, leading zeros among them. -/
def Denotes (s : List Char) (n : Nat) : Prop :=
  ∃ sign digits, (sign = [] ∨ sign = ['+']) ∧ digits ≠ [] ∧ (∀ c ∈ digits, c.isDigit) ∧
    s = sign ++ digits ∧ n = Nat.ofDigitChars 10 digits 0

theorem digit?_eq_some_iff {c : Char} {d : Nat} :
    digit? c = some d ↔ c.isDigit ∧ c.toNat - '0'.toNat = d := by
  have hd : c.isDigit ↔ '0' ≤ c ∧ c ≤ '9' := by
    simp only [Char.isDigit, Bool.and_eq_true, decide_eq_true_eq, Char.le_def]
  unfold digit?
  split
  · rename_i hc
    rw [Option.some.injEq]
    exact (and_iff_right (hd.2 hc)).symm
  · rename_i hc
    exact iff_of_false nofun fun h => hc (hd.1 h.1)

theorem value?_eq_some_iff {acc n : Nat} {s : List Char} :
    value? acc s = some n ↔ (∀ c ∈ s, c.isDigit) ∧ Nat.ofDigitChars 10 s acc = n := by
  induction s generalizing acc with
  | nil => simp [value?]
  | cons c s ih =>
    rw [value?, Option.bind_eq_some_iff, List.forall_mem_cons, Nat.ofDigitChars_cons,
      Nat.mul_comm 10 acc, and_assoc]
    constructor
    · rintro ⟨d, hd, hv⟩
      obtain ⟨hc, rfl⟩ := digit?_eq_some_iff.1 hd
      exact ⟨hc, ih.1 hv⟩
    · rintro ⟨hc, hv⟩
      exact ⟨_, digit?_eq_some_iff.2 ⟨hc, rfl⟩, ih.2 hv⟩

theorem exists_sign (s : List Char) :
    ∃ sign, (sign = [] ∨ sign = ['+']) ∧ s = sign ++ dropPlus s := by
  unfold dropPlus
  split
  · exact ⟨['+'], .inr rfl, rfl⟩
  · exact ⟨[], .inl rfl, rfl⟩

theorem dropPlus_sign_append {sign digits : List Char} (hs : sign = [] ∨ sign = ['+'])
    (hd : ∀ c ∈ digits, c.isDigit) : dropPlus (sign ++ digits) = digits := by
  rcases hs with rfl | rfl
  · rw [List.nil_append]
    unfold dropPlus
    split
    · cases hd '+' List.mem_cons_self
    · rfl
  · rfl

theorem denotes_iff {s : List Char} {n : Nat} : Denotes s n ↔ dropPlus s ≠ [] ∧
    (∀ c ∈ dropPlus s, c.isDigit) ∧ Nat.ofDigitChars 10 (dropPlus s) 0 = n := by
  constructor
  · rintro ⟨sign, digits, hsign, hne, hd, rfl, rfl⟩
    rw [dropPlus_sign_append hsign hd]
    exact ⟨hne, hd, rfl⟩
  · rintro ⟨hne, hd, hn⟩
    obtain ⟨sign, hsign, hs⟩ := exists_sign s
    exact ⟨sign, dropPlus s, hsign, hne, hd, hs, hn.symm⟩

/-- A number is read exactly from the texts that denote it, if it is not over the bound. -/
theorem read?_eq_some_iff {bound n : Nat} {s : List Char} :
    read? bound s = some n ↔ Denotes s n ∧ n ≤ bound := by
  rw [denotes_iff]
  unfold read?
  split
  · rename_i hs
    exact iff_of_false nofun fun h => h.1.1 hs
  · rename_i hs
    rw [Option.filter_eq_some_iff, value?_eq_some_iff, decide_eq_true_eq]
    exact and_congr_left fun _ => (and_iff_right hs).symm

theorem render_of_lt {n : Nat} (h : n < 10) : render n = [n.digitChar] :=
  Nat.toDigits_of_lt_base h

theorem render_of_le {n : Nat} (h : 10 ≤ n) : render n = render (n / 10) ++ [(n % 10).digitChar] :=
  Nat.toDigits_of_base_le (by decide) h

theorem value?_render (n : Nat) : value? 0 (render n) = some n := by
  induction n using Nat.strongRecOn with
  | ind n ih =>
    by_cases h : n < 10
    · rw [render_of_lt h, value?, digit?_digitChar h]
      exact congrArg some (Nat.zero_add n)
    · have hm : n % 10 < 10 := Nat.mod_lt n (by decide)
      rw [render_of_le (Nat.not_lt.1 h), value?_append, ih (n / 10) (by omega), Option.bind_some,
        value?, digit?_digitChar hm]
      exact congrArg some (by omega)

theorem isSome_digit?_of_mem_render {n : Nat} {c : Char} (h : c ∈ render n) :
    (digit? c).isSome := by
  induction n using Nat.strongRecOn with
  | ind n ih =>
    by_cases hn : n < 10
    · rw [render_of_lt hn, List.mem_singleton] at h
      rw [h, digit?_digitChar hn]
      rfl
    · rw [render_of_le (Nat.not_lt.1 hn)] at h
      obtain h | h := List.mem_append.1 h
      · exact ih (n / 10) (by omega) h
      · rw [List.mem_singleton.1 h, digit?_digitChar (Nat.mod_lt n (by decide))]
        rfl

theorem not_mem_render {n : Nat} {c : Char} (h : digit? c = none) : c ∉ render n := by
  intro hm
  have hs := isSome_digit?_of_mem_render hm
  rw [h] at hs
  cases hs

theorem render_ne_nil (n : Nat) : render n ≠ [] := Nat.toDigits_ne_nil

theorem dropPlus_render (n : Nat) : dropPlus (render n) = render n := by
  have hp : '+' ∉ render n := not_mem_render rfl
  unfold dropPlus
  split
  · rename_i rest hs
    rw [hs] at hp
    exact absurd List.mem_cons_self hp
  · rfl

theorem read?_render {bound n : Nat} (h : n ≤ bound) : read? bound (render n) = some n := by
  unfold read?
  rw [dropPlus_render]
  split
  · rename_i hn
    exact absurd hn (render_ne_nil n)
  · rw [value?_render]
    exact Option.filter_some_pos (decide_eq_true h)

/-- Digits that follow a positive number continue it. -/
theorem render_of_value? {acc n : Nat} {s : List Char} (ha : 0 < acc) (h : value? acc s = some n) :
    render n = render acc ++ s := by
  induction s generalizing acc with
  | nil =>
    cases h
    exact (List.append_nil _).symm
  | cons c s ih =>
    obtain ⟨d, hd, h⟩ := Option.bind_eq_some_iff.1 h
    have hlt := lt_of_digit? hd
    have hq : (acc * 10 + d) / 10 = acc := by omega
    have hm : (acc * 10 + d) % 10 = d := by omega
    rw [ih (by omega) h, render_of_le (by omega), hq, hm, digitChar_of_digit? hd, List.append_assoc]
    rfl

/-- A text of digits is what is printed of its value, unless it has a leading zero. -/
theorem eq_render_of_read? {bound n : Nat} {s : List Char} (h : read? bound s = some n)
    (hp : s.head? ≠ some '+') (hz : ∀ c rest, s ≠ '0' :: c :: rest) : s = render n := by
  match s with
  | [] => cases h
  | c :: rest =>
    have hd : dropPlus (c :: rest) = c :: rest := by
      unfold dropPlus
      split
      · rename_i hs
        rw [hs] at hp
        exact absurd rfl hp
      · rfl
    unfold read? at h
    rw [hd] at h
    have hv := Option.eq_some_of_filter_eq_some h
    obtain ⟨d, hc, hv⟩ := Option.bind_eq_some_iff.1 hv
    have hlt := lt_of_digit? hc
    rw [Nat.zero_mul, Nat.zero_add] at hv
    cases d with
    | zero =>
      have h0 : c = '0' := (digitChar_of_digit? hc).symm
      cases rest with
      | nil =>
        cases hv
        rw [h0]
        rfl
      | cons c' rest => exact absurd (by rw [h0]) (hz c' rest)
    | succ d =>
      rw [render_of_value? (Nat.succ_pos d) hv, render_of_lt hlt, digitChar_of_digit? hc]
      rfl

end Decimal

namespace Hex

/-- The value of hexadecimal digits that are read one by one. -/
theorem mapM_digit?_toDigits (n : Nat) : ∃ ds, (Nat.toDigits 16 n).mapM digit? = some ds ∧
    ds.foldl (fun acc d => acc * 16 + d) 0 = n := by
  induction n using Nat.strongRecOn with
  | ind n ih =>
    by_cases h : n < 16
    · rw [Nat.toDigits_of_lt_base h]
      refine ⟨[n], ?_, Nat.zero_add n⟩
      rw [List.mapM_cons, digit?_digitChar h]
      rfl
    · have hm : n % 16 < 16 := Nat.mod_lt n (by decide)
      obtain ⟨ds, hd, hv⟩ := ih (n / 16) (by omega)
      rw [Nat.toDigits_of_base_le (by decide) (Nat.not_lt.1 h)]
      refine ⟨ds ++ [n % 16], ?_, ?_⟩
      · rw [List.mapM_append, hd, List.mapM_cons, digit?_digitChar hm]
        rfl
      · rw [List.foldl_append, hv]
        show n / 16 * 16 + n % 16 = n
        omega

theorem not_mem_toDigits {n : Nat} {c : Char} (h : digit? c = none) : c ∉ Nat.toDigits 16 n := by
  intro hm
  obtain ⟨ds, hd, -⟩ := mapM_digit?_toDigits n
  obtain ⟨a, b, hab⟩ := List.append_of_mem hm
  rw [hab, List.mapM_append, List.mapM_cons, h] at hd
  cases ha : a.mapM digit? <;> rw [ha] at hd <;> cases hd

end Hex

end SocksChain.Text
