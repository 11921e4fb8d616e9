import SocksChain.Aliases
import SocksChain.Directory
import SocksChain.Proofs.Text.Digits

/-!
Which hosts are aliases, and of which hash. The host of a hash is decoded to that hash; of all other
texts exactly those are decoded that have the suffix at their end and in front of it digits of a
number below `2 ^ 64`, with leading zeros or a plus sign if need be. Nothing depends on the suffix,
which may begin with digits of its own. A node decodes the hosts of the connections that come back
to it and the hosts that it is asked for in the same way.
-/

namespace SocksChain

namespace Alias

open Text

/-- The text is the suffix with digits of the number in front of it. -/
def Bears (suffix text : String) (n : Nat) : Prop :=
  ∃ front : String, text = front ++ suffix ∧ Decimal.Denotes front.toList n

theorem hash?_host (suffix : String) (h : UInt64) : hash? suffix (host suffix h) = some h := by
  have hn : h.toNat ≤ UInt64.size - 1 := Nat.le_sub_one_of_lt h.toNat_lt
  rw [hash?, host, String.toList_ofList, front?_append, Option.bind_some,
    Decimal.read?_render hn, Option.map_some, UInt64.ofNat_toNat]

theorem host_injective (suffix : String) : Function.Injective (host suffix) := by
  intro h h' he
  have hd := congrArg (hash? suffix) he
  rw [hash?_host, hash?_host] at hd
  exact Option.some.inj hd

theorem front?_eq_some_iff {suffix s p : List Char} :
    front? suffix s = some p ↔ s = p ++ suffix := by
  constructor
  · exact eq_append_of_front?
  · rintro rfl
    exact front?_append suffix p

theorem read?_hash_iff {digits : List Char} {h : UInt64} :
    (Decimal.read? (UInt64.size - 1) digits).map UInt64.ofNat = some h ↔
      Decimal.Denotes digits h.toNat := by
  rw [Option.map_eq_some_iff]
  constructor
  · rintro ⟨n, hn, rfl⟩
    obtain ⟨hd, hb⟩ := Decimal.read?_eq_some_iff.1 hn
    rwa [UInt64.toNat_ofNat_of_lt' (Nat.lt_of_le_sub_one (by decide) hb)]
  · intro hd
    have hb : h.toNat ≤ UInt64.size - 1 := Nat.le_sub_one_of_lt h.toNat_lt
    exact ⟨h.toNat, Decimal.read?_eq_some_iff.2 ⟨hd, hb⟩, UInt64.ofNat_toNat⟩

theorem hash?_eq_some_iff {suffix text : String} {h : UInt64} :
    hash? suffix text = some h ↔ Bears suffix text h.toNat := by
  rw [hash?, Option.bind_eq_some_iff]
  constructor
  · rintro ⟨front, hf, hr⟩
    refine ⟨String.ofList front, String.toList_injective ?_, ?_⟩
    · rw [String.toList_append, String.toList_ofList]
      exact front?_eq_some_iff.1 hf
    · rw [String.toList_ofList]
      exact read?_hash_iff.1 hr
  · rintro ⟨front, rfl, hd⟩
    refine ⟨front.toList, front?_eq_some_iff.2 ?_, read?_hash_iff.2 hd⟩
    exact String.toList_append

/-- There is no hash in a text that bears no number, or only one that is too large. -/
theorem hash?_eq_none_iff {suffix text : String} :
    hash? suffix text = none ↔ ∀ n, Bears suffix text n → UInt64.size ≤ n := by
  constructor
  · intro hnone n hn
    refine Nat.le_of_not_lt fun hlt => ?_
    have hnat : (UInt64.ofNat n).toNat = n := UInt64.toNat_ofNat_of_lt' hlt
    rw [← hnat, ← hash?_eq_some_iff, hnone] at hn
    cases hn
  · intro hlarge
    refine Option.eq_none_iff_forall_ne_some.2 fun h hh => ?_
    exact Nat.not_le_of_lt h.toNat_lt (hlarge _ (hash?_eq_some_iff.1 hh))

end Alias

namespace Directory

variable {d : Directory} {host : String} (r : Store.Registry UInt64 String) (now : Nat)

theorem real_of_bears {h : UInt64} (hb : Alias.Bears d.suffix host h.toNat) :
    d.real r now host = ((r.get now h).1.bind Endpoint.ofText?, (r.get now h).2) := by
  rw [real, Alias.hash?_eq_some_iff.2 hb]

theorem real_of_large (hb : ∀ n, Alias.Bears d.suffix host n → UInt64.size ≤ n) :
    d.real r now host = (none, r) := by
  rw [real, Alias.hash?_eq_none_iff.2 hb]

/-- Restoring an endpoint and looking up its host find the same and leave the same behind. -/
theorem real_eq_resolve {a : Aliases} (hs : d.suffix = a.policy.suffix) (e : Endpoint) :
    d.real a.registry now e.host = ((a.resolve now e).1, (a.resolve now e).2.registry) := by
  unfold real Aliases.resolve
  rw [hs]
  match Alias.hash? a.policy.suffix e.host with
  | none => rfl
  | some h => rfl

end Directory

/-- **Hosts of aliases decode exactly.** Whatever the suffix, the host of a hash is decoded to that
hash, so no two hashes have one host, and what a destination is replaced by is decoded to the hash
that its text is stored under. A text is decoded to a hash exactly if it is the suffix with digits of
that hash in front of it, and to nothing exactly if it bears no number at all or only one that is too
large for a hash. A node that is asked for a host looks up the hash that it bears, and looks up
nothing for any other host; so it does what restoring an endpoint with that host does. -/
theorem Alias.hosts_decode_exactly (suffix : String) :
    (∀ h, hash? suffix (host suffix h) = some h) ∧
    Function.Injective (host suffix) ∧
    (∀ text h, hash? suffix text = some h ↔ Bears suffix text h.toNat) ∧
    (∀ text, hash? suffix text = none ↔ ∀ n, Bears suffix text n → UInt64.size ≤ n) ∧
    (∀ a : Aliases, a.policy.suffix = suffix → ∀ now draw d,
      let s := (a.substitute now draw d).1
      hash? suffix s.standIn.host = some s.hash) ∧
    ∀ d : Directory, d.suffix = suffix → ∀ now text,
      (∀ r (h : UInt64), Bears suffix text h.toNat →
        d.real r now text = ((r.get now h).1.bind Endpoint.ofText?, (r.get now h).2)) ∧
      (∀ r, (∀ n, Bears suffix text n → UInt64.size ≤ n) → d.real r now text = (none, r)) ∧
      ∀ a : Aliases, a.policy.suffix = suffix → ∀ port, d.real a.registry now text =
        ((a.resolve now ⟨text, port⟩).1, (a.resolve now ⟨text, port⟩).2.registry) := by
  refine ⟨hash?_host suffix, host_injective suffix, fun _ _ => hash?_eq_some_iff,
    fun _ => hash?_eq_none_iff, ?_, ?_⟩
  · rintro a rfl now draw d
    exact hash?_host a.policy.suffix (Endpoint.hashText d.toText)
  · rintro d rfl now text
    refine ⟨fun r h hb => d.real_of_bears r now hb, fun r hb => d.real_of_large r now hb, ?_⟩
    exact fun a hs port => Directory.real_eq_resolve now hs.symm ⟨text, port⟩

/-- A sign and leading zeros do not matter, and digits of the suffix are none of the number. -/
example : Alias.hash? "99.fake" "+00799.fake" = some 7 := by rfl

end SocksChain
