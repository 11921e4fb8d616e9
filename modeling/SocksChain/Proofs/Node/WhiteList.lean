import SocksChain.Directory
import SocksChain.Proofs.Store.Contents

/-!
The white list of a directory. It has one tier only, so an entry expires when it was put there to
expire or earlier, and looking for a peer never makes an entry last longer.
-/

namespace SocksChain

namespace Store.Registry

variable {K V : Type} [DecidableEq K] {r : Registry K V}

theorem get_cold_eq_none (h : r.cold = none) (now : Nat) (k : K) :
    (r.get now k).2.cold = none := by
  unfold get
  split
  · exact h
  · simp only [getCold, h]
    rfl

theorem put_cold_eq_none (h : r.cold = none) (now : Nat) (k : K) (v : V) (ttl : Nat) :
    (r.put now k v ttl).cold = none := by
  simp only [put, putCold, h, Option.map_none]

/-- What is stored is found until it expires. -/
theorem live?_put_of_lt (r : Registry K V) {now later ttl : Nat} (k : K) (v : V)
    (hn : now ≤ later) (hl : later < now + ttl) :
    (r.put now k v ttl).live? later k = some v := by
  have hp : (r.put now k v ttl).hot.peek later k = some (.ofLifetime now v ttl) :=
    ByAge.peek_put_of_lt _ _ _ hn hl
  rw [live?, hp]
  rfl

end Store.Registry

namespace Directory

/-- Every peer on the white list is there until a deadline that `P` accounts for. -/
structure Listing (P : Ip.Address → Nat → Prop) (d : Directory) : Prop where
  single : d.whiteList.cold = none
  all : d.whiteList.All fun peer e => P peer e.expires

namespace Listing

variable {P Q : Ip.Address → Nat → Prop} {d : Directory}

theorem mono (h : d.Listing P) (hPQ : ∀ peer t, P peer t → Q peer t) : d.Listing Q :=
  ⟨h.single, h.all.mono fun peer e => hPQ peer e.expires⟩

theorem ofSuffix (suffix : String) (ttl whiteListTtl : Nat) :
    (Directory.ofSuffix suffix ttl whiteListTtl).Listing P :=
  ⟨rfl, Store.Registry.All.ofPolicy _⟩

theorem enlist (h : d.Listing P) {now : Nat} {peer : Ip.Address}
    (hP : P peer (now + d.whiteListTtl)) : (d.enlist now peer).Listing P := by
  refine ⟨Store.Registry.put_cold_eq_none h.single _ _ _ _, h.all.put hP ?_⟩
  intro hc
  rw [h.single] at hc
  cases hc

theorem isEnlisted (h : d.Listing P) (hP : ∀ peer t t', P peer t → t' ≤ t → P peer t') (now : Nat)
    (peer : Ip.Address) : (d.isEnlisted now peer).2.Listing P :=
  ⟨Store.Registry.get_cold_eq_none h.single _ _,
    h.all.get (fun k e t he ht => hP k e.expires t he ht) now peer⟩

/-- Whoever is found on the white list is there until some time to come. -/
theorem of_isEnlisted (h : d.Listing P) {now : Nat} {peer : Ip.Address}
    (hf : (d.isEnlisted now peer).1 = true) : ∃ t, P peer t ∧ now < t := by
  have hs : (d.whiteList.get now peer).1.isSome = true := hf
  rw [Store.Registry.get_fst] at hs
  obtain ⟨v, hv⟩ := Option.isSome_iff_exists.mp hs
  obtain ⟨e, he, -, hlt⟩ := h.all.of_live? hv
  exact ⟨e.expires, he, hlt⟩

end Listing

/-- A peer that is put on the white list is there for as long as a listing lasts. -/
theorem isEnlisted_enlist (d : Directory) {now later : Nat} (peer : Ip.Address) (hn : now ≤ later)
    (hl : later < now + d.whiteListTtl) : ((d.enlist now peer).isEnlisted later peer).1 = true := by
  have hlive := d.whiteList.live?_put_of_lt peer () hn hl
  rw [← Store.Registry.get_fst] at hlive
  exact congrArg Option.isSome hlive

end Directory

end SocksChain
