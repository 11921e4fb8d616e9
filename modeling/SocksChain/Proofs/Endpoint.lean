import SocksChain.Proofs.Ip.Text
import SocksChain.Socks.Address

/-!
Which endpoints survive being printed and read back. Reading takes one pair of brackets off every
host, and printing puts it only around an address of sixteen octets; so the text of an endpoint is
read as one with the same text exactly if its host is not in brackets otherwise. An address on the
SOCKS5 wire comes back as the endpoint that was read.
-/

namespace SocksChain

open Text

theorem Ip.splitLast_append {c : Char} (front : List Char) {back : List Char} (h : c ∉ back) :
    splitLast c (front ++ c :: back) = some (front, back) := by
  have hb : ∀ x ∈ back.reverse, (x != c) = true := fun x hx =>
    bne_iff_ne.2 fun he => h (he ▸ List.mem_reverse.1 hx)
  have hc : (front ++ c :: back).contains c = true := by simp
  rw [splitLast, if_pos hc, List.reverse_append, List.reverse_cons, List.append_assoc,
    List.takeWhile_append_of_pos hb, List.dropWhile_append_of_pos hb, List.singleton_append,
    List.takeWhile_cons_of_neg (by simp), List.dropWhile_cons_of_neg (by simp), List.drop_one,
    List.tail_cons, List.reverse_reverse, List.append_nil, List.reverse_reverse]

theorem unbracket_bracketed (s : List Char) : unbracket ('[' :: s ++ [']']) = s := by
  simp [unbracket]

theorem unbracket_of_not_mem {s : List Char} (h : '[' ∉ s) : unbracket s = s := by
  unfold unbracket
  split
  · exact absurd List.mem_cons_self h
  · rfl

theorem eq_of_unbracket_ne {s : List Char} (h : unbracket s ≠ s) :
    s = '[' :: unbracket s ++ [']'] := by
  unfold unbracket at h ⊢
  split at h
  · rename_i rest
    split at h
    · rename_i hl
      obtain ⟨front, rfl⟩ := List.getLast?_eq_some_iff.1 hl
      simp
    · exact absurd rfl h
  · exact absurd rfl h

theorem unbracket_eq_nil_iff {s : List Char} : unbracket s = [] ↔ s = [] ∨ s = ['[', ']'] := by
  constructor
  · intro h
    by_cases hs : unbracket s = s
    · exact .inl (hs ▸ h)
    · refine .inr ?_
      rw [eq_of_unbracket_ne hs, h]
      rfl
  · rintro (rfl | rfl) <;> rfl

namespace Endpoint

/-- How a host is printed in front of the port. -/
def hostText (e : Endpoint) : List Char :=
  match e.ip? with
  | some (.v6 x) => '[' :: x.render ++ [']']
  | _ => e.host.toList

/-- The host stands between one pair of brackets. -/
def Enclosed (e : Endpoint) : Prop := ∃ inner : String, e.host = "[" ++ inner ++ "]"

/-- The host stands in brackets without being an address of sixteen octets. -/
def Bracketed (e : Endpoint) : Prop :=
  unbracket e.host.toList ≠ e.host.toList ∧ ∀ x, e.ip? ≠ some (.v6 x)

variable {e f : Endpoint}

theorem toList_enclosed (inner : String) :
    ("[" ++ inner ++ "]").toList = '[' :: inner.toList ++ [']'] := by
  rw [String.toList_append, String.toList_append]
  rfl

theorem unbracket_enclosed {inner : String} (h : e.host = "[" ++ inner ++ "]") :
    unbracket e.host.toList = inner.toList := by
  rw [h, toList_enclosed, unbracket_bracketed]

theorem enclosed_iff : e.Enclosed ↔ unbracket e.host.toList ≠ e.host.toList := by
  constructor
  · rintro ⟨inner, h⟩ hu
    have hl := congrArg List.length ((unbracket_enclosed h).symm.trans hu)
    rw [h, toList_enclosed, List.length_append, List.length_cons, List.length_singleton] at hl
    omega
  · intro h
    refine ⟨String.ofList (unbracket e.host.toList), String.toList_injective ?_⟩
    rw [toList_enclosed, String.toList_ofList]
    exact eq_of_unbracket_ne h

theorem ip?_of_enclosed {inner : String} (h : e.host = "[" ++ inner ++ "]") :
    e.ip? = Ip.Address.ofText? inner := by
  rw [ip?, unbracket_enclosed h]
  rfl

theorem unbracket_of_not_enclosed (h : ¬ e.Enclosed) :
    unbracket e.host.toList = e.host.toList := by
  rwa [enclosed_iff, Decidable.not_not] at h

theorem ip?_of_not_enclosed (h : ¬ e.Enclosed) : e.ip? = Ip.Address.ofText? e.host := by
  rw [ip?, unbracket_of_not_enclosed h]
  rfl

theorem render_eq (e : Endpoint) :
    e.render = e.hostText ++ ':' :: Decimal.render e.port.toNat := by
  unfold render hostText
  match e.ip? with
  | some (.v6 x) => simp
  | some (.v4 x) => rfl
  | none => rfl

theorem splitLast_render (e : Endpoint) :
    Ip.splitLast ':' e.render = some (e.hostText, Decimal.render e.port.toNat) := by
  rw [render_eq]
  exact Ip.splitLast_append _ (Decimal.not_mem_render rfl)

theorem read?_port (p : UInt16) : Decimal.read? 65535 (Decimal.render p.toNat) = some p.toNat :=
  Decimal.read?_render (Nat.le_of_lt_succ p.toNat_lt)

theorem toText_inj : e.toText = f.toText ↔ e.hostText = f.hostText ∧ e.port = f.port := by
  constructor
  · intro h
    have hr : e.render = f.render := String.ofList_injective h
    have hs := e.splitLast_render.symm.trans ((congrArg _ hr).trans f.splitLast_render)
    obtain ⟨hh, hp⟩ := Prod.mk.inj (Option.some.inj hs)
    have hn := (read?_port e.port).symm.trans ((congrArg _ hp).trans (read?_port f.port))
    exact ⟨hh, UInt16.toNat_inj.1 (Option.some.inj hn)⟩
  · intro h
    rw [toText, toText, render_eq, render_eq, h.1, h.2]

theorem ofText_toText (e : Endpoint) : ofText e.toText =
    if unbracket e.hostText = [] then .error (.noHost e.toText)
    else .ok ⟨String.ofList (unbracket e.hostText), e.port⟩ := by
  rw [ofText, toText, String.toList_ofList, parse, splitLast_render]
  dsimp only
  rw [read?_port]
  dsimp only
  rw [UInt16.ofNat_toNat]

theorem ofText?_toText (e : Endpoint) : ofText? e.toText =
    if unbracket e.hostText = [] then none
    else some ⟨String.ofList (unbracket e.hostText), e.port⟩ := by
  rw [ofText?, ofText_toText]
  split <;> rfl

theorem hostText_of_v6 {x : Ip.V6} (h : e.ip? = some (.v6 x)) :
    e.hostText = '[' :: x.render ++ [']'] := by
  rw [hostText, h]

theorem hostText_of_ne (h : ∀ x, e.ip? ≠ some (.v6 x)) : e.hostText = e.host.toList := by
  unfold hostText
  split
  · rename_i x hx
    exact absurd hx (h x)
  · rfl

/-- The text of an endpoint is unreadable only if there is no host in it. -/
theorem unbracket_hostText_eq_nil_iff (e : Endpoint) :
    unbracket e.hostText = [] ↔ e.host = "" ∨ e.host = "[]" := by
  have hhost (s : String) : e.host.toList = s.toList ↔ e.host = s := String.toList_inj
  rw [← hhost "", ← hhost "[]"]
  by_cases h6 : ∃ x, e.ip? = some (.v6 x)
  · obtain ⟨x, hx⟩ := h6
    rw [hostText_of_v6 hx, unbracket_bracketed]
    constructor
    · intro hn
      have hc := x.colon_mem_render
      rw [hn] at hc
      cases hc
    · intro hn
      rw [ip?, unbracket_eq_nil_iff.2 hn] at hx
      cases hx
  · rw [hostText_of_ne (not_exists.1 h6)]
    exact unbracket_eq_nil_iff

theorem ofText?_toText_eq_none_iff (e : Endpoint) :
    ofText? e.toText = none ↔ e.host = "" ∨ e.host = "[]" := by
  rw [← unbracket_hostText_eq_nil_iff, ofText?_toText]
  split <;> simp [*]

theorem ip?_of_render (a : Ip.Address) (p : UInt16) :
    (⟨a.toText, p⟩ : Endpoint).ip? = some a := by
  rw [ip?, Ip.Address.toText, String.toList_ofList, unbracket_of_not_mem a.not_mem_render]
  exact a.parse?_render

/-- An address on the wire is the one of the host, if it is one, and the host otherwise. -/
theorem toEndpoint_ofEndpoint (e : Endpoint) : (Socks.Address.ofEndpoint e).toEndpoint =
    match e.ip? with
    | some a => ⟨a.toText, e.port⟩
    | none => e := by
  unfold Socks.Address.ofEndpoint socket?
  cases e.ip? <;> rfl

/-- Only the same host is printed like one in brackets. -/
theorem Bracketed.host_eq {d : Endpoint} (hb : d.Bracketed) (h : e.hostText = d.hostText) :
    e.host.toList = '[' :: unbracket d.host.toList ++ [']'] := by
  rw [hostText_of_ne hb.2, eq_of_unbracket_ne hb.1] at h
  by_cases h6 : ∃ x, e.ip? = some (.v6 x)
  · obtain ⟨x, hx⟩ := h6
    rw [hostText_of_v6 hx] at h
    have hm : x.render = unbracket d.host.toList :=
      (List.cons.inj (List.append_cancel_right h)).2
    refine absurd ?_ (hb.2 x)
    rw [ip?, ← hm]
    exact (Ip.Address.v6 x).parse?_render
  · rwa [hostText_of_ne (not_exists.1 h6)] at h

/-- A host without lost brackets is an address of sixteen octets or is read as it is. -/
theorem cases_of_not_bracketed {d : Endpoint} (h : ¬ d.Bracketed) :
    (∃ x, d.ip? = some (.v6 x)) ∨
      d.hostText = d.host.toList ∧ unbracket d.host.toList = d.host.toList := by
  by_cases h6 : ∃ x, d.ip? = some (.v6 x)
  · exact .inl h6
  · have h6 := not_exists.1 h6
    exact .inr ⟨hostText_of_ne h6, Decidable.not_not.1 fun hu => h ⟨hu, h6⟩⟩

section Reread

variable {d real : Endpoint}

theorem eq_of_ofText?_toText (h : ofText? d.toText = some real) :
    real = ⟨String.ofList (unbracket d.hostText), d.port⟩ := by
  rw [ofText?_toText] at h
  split at h
  · cases h
  · exact (Option.some.inj h).symm

theorem reread_of_v6 (h : ofText? d.toText = some real) {x : Ip.V6} (hx : d.ip? = some (.v6 x)) :
    real = ⟨Ip.Address.toText (.v6 x), d.port⟩ := by
  rw [eq_of_ofText?_toText h, hostText_of_v6 hx, unbracket_bracketed]
  rfl

theorem reread_of_unbracket (h : ofText? d.toText = some real)
    (hd : d.hostText = d.host.toList) (hu : unbracket d.host.toList = d.host.toList) :
    real = d := by
  rw [eq_of_ofText?_toText h, hd, hu, String.ofList_toList]

/-- What is read of a text has that text exactly if no brackets are lost. -/
theorem reread_toText_iff (h : ofText? d.toText = some real) :
    real.toText = d.toText ↔ ¬ d.Bracketed := by
  constructor
  · intro ht hb
    have hh := hb.host_eq (toText_inj.1 ht).1
    rw [eq_of_ofText?_toText h, hostText_of_ne hb.2, String.toList_ofList,
      ← eq_of_unbracket_ne hb.1] at hh
    exact hb.1 hh
  · intro hb
    rcases cases_of_not_bracketed hb with ⟨x, hx⟩ | ⟨hd, hu⟩
    · obtain rfl := reread_of_v6 h hx
      refine toText_inj.2 ⟨?_, rfl⟩
      rw [hostText_of_v6 hx, hostText_of_v6 (ip?_of_render (.v6 x) d.port)]
    · rw [reread_of_unbracket h hd hu]

theorem not_bracketed_iff : ¬ d.Bracketed ↔ ¬ d.Enclosed ∨
    ∃ inner x, d.host = "[" ++ inner ++ "]" ∧ Ip.Address.ofText? inner = some (.v6 x) := by
  rw [Bracketed, ← enclosed_iff]
  constructor
  · intro hb
    by_cases hd : d.Enclosed
    · obtain ⟨x, hx⟩ := Classical.not_forall_not.1 fun h6 => hb ⟨hd, h6⟩
      obtain ⟨inner, hi⟩ := hd
      exact .inr ⟨inner, x, hi, ip?_of_enclosed hi ▸ hx⟩
    · exact .inl hd
  · rintro (hd | ⟨inner, x, hi, hx⟩) ⟨hd', h6⟩
    · exact hd hd'
    · exact h6 x ((ip?_of_enclosed hi).trans hx)

/-- What is read of a text is the endpoint of that text exactly if there is no bracket to take off
and no address to write in another way. -/
theorem reread_eq_iff (h : ofText? d.toText = some real) : real = d ↔ ¬ d.Enclosed ∧
    ∀ x, Ip.Address.ofText? d.host = some (.v6 x) → d.host = Ip.Address.toText (.v6 x) := by
  constructor
  · rintro rfl
    have hd : ¬ real.Enclosed := by
      rintro ⟨inner, hi⟩
      by_cases h6 : ∃ x, real.ip? = some (.v6 x)
      · obtain ⟨x, hx⟩ := h6
        have hhost := congrArg host (reread_of_v6 h hx)
        have hc : '[' ∈ real.host.toList := by
          rw [hi, toList_enclosed]
          exact List.mem_cons_self
        rw [hhost, Ip.Address.toText, String.toList_ofList] at hc
        exact (Ip.Address.v6 x).not_mem_render hc
      · have hhost := congrArg host (eq_of_ofText?_toText h)
        rw [hostText_of_ne (not_exists.1 h6)] at hhost
        refine enclosed_iff.1 ⟨inner, hi⟩ ?_
        exact String.toList_ofList.symm.trans (congrArg String.toList hhost).symm
    refine ⟨hd, fun x hx => ?_⟩
    exact congrArg host (reread_of_v6 h ((ip?_of_not_enclosed hd).trans hx))
  · rintro ⟨hd, hcanonical⟩
    have hip := ip?_of_not_enclosed hd
    by_cases h6 : ∃ x, d.ip? = some (.v6 x)
    · obtain ⟨x, hx⟩ := h6
      rw [reread_of_v6 h hx, ← hcanonical x (hip.symm.trans hx)]
    · exact reread_of_unbracket h (hostText_of_ne (not_exists.1 h6))
        (unbracket_of_not_enclosed hd)

theorem toText_of_v6 {x : Ip.V6} (h : real.ip? = some (.v6 x)) :
    toText ⟨Ip.Address.toText (.v6 x), real.port⟩ = real.toText := by
  have hh := (hostText_of_v6 (ip?_of_render (.v6 x) real.port)).trans (hostText_of_v6 h).symm
  exact toText_inj.2 ⟨hh, rfl⟩

theorem hostText_of_v4 (x : Ip.V4) (p : UInt16) :
    hostText ⟨Ip.Address.toText (.v4 x), p⟩ = x.render := by
  rw [hostText_of_ne (by rw [ip?_of_render]; exact nofun)]
  exact String.toList_ofList

theorem toText_of_v4_iff (h : ofText? d.toText = some real) {x : Ip.V4}
    (hx : real.ip? = some (.v4 x)) :
    toText ⟨Ip.Address.toText (.v4 x), real.port⟩ = d.toText ↔ ¬ d.Bracketed := by
  have hp : real.port = d.port := by rw [eq_of_ofText?_toText h]
  have hv := hostText_of_v4 x real.port
  rw [toText_inj, hv]
  constructor
  · intro ht hb
    have hh := hb.host_eq (hv.trans ht.1)
    have hc : '[' ∈ (Ip.Address.toText (.v4 x)).toList := hh ▸ List.mem_cons_self
    rw [Ip.Address.toText, String.toList_ofList] at hc
    exact (Ip.Address.v4 x).not_mem_render hc
  · intro hb
    rcases cases_of_not_bracketed hb with ⟨y, hy⟩ | ⟨hd, hu⟩
    · rw [reread_of_v6 h hy, ip?_of_render] at hx
      cases hx
    · rw [reread_of_unbracket h hd hu, ip?, hu] at hx
      exact ⟨by rw [hd, Ip.Address.eq_render_of_parse?_v4 hx], hp⟩

/-- The same holds of what has gone over the wire since: an address is carried as its text, and
everything else as it is. -/
theorem carried_toText_iff (h : ofText? d.toText = some real) :
    (Socks.Address.ofEndpoint real).toEndpoint.toText = d.toText ↔ ¬ d.Bracketed := by
  rw [toEndpoint_ofEndpoint]
  match ha : real.ip? with
  | none => exact reread_toText_iff h
  | some (.v4 x) => exact toText_of_v4_iff h ha
  | some (.v6 x) =>
    dsimp only
    rw [toText_of_v6 ha]
    exact reread_toText_iff h

end Reread

/-- **Printed endpoints are read back exactly.** Whatever the host and the port, the text of an
endpoint is refused for want of a host if the host is empty or `[]`; of any other endpoint it is
read with the same port. It is the same endpoint exactly if the host is not in brackets and, where
it is an address of sixteen octets, is written the way addresses are printed. It has the same text
exactly if the host is not in brackets, or is such an address in brackets. A host that is neither
stands in its text as it is, with colons of its own if it has any: only the last one parts host and
port. -/
theorem text_is_reread_exactly (e : Endpoint) :
    (e.host = "" ∨ e.host = "[]" → ofText e.toText = .error (.noHost e.toText)) ∧
    (¬ (e.host = "" ∨ e.host = "[]") → ∃ read, ofText e.toText = .ok read ∧
      read.port = e.port ∧
      (read = e ↔ ¬ e.Enclosed ∧
        ∀ x, Ip.Address.ofText? e.host = some (.v6 x) → e.host = Ip.Address.toText (.v6 x)) ∧
      (read.toText = e.toText ↔ ¬ e.Enclosed ∨
        ∃ inner x, e.host = "[" ++ inner ++ "]" ∧ Ip.Address.ofText? inner = some (.v6 x))) ∧
    (¬ e.Enclosed → (∀ x, Ip.Address.ofText? e.host ≠ some (.v6 x)) →
      e.toText = e.host ++ ":" ++ toString e.port.toNat ∧
      Ip.splitLast ':' e.toText.toList = some (e.host.toList, Decimal.render e.port.toNat) ∧
      (e.host ≠ "" → ofText e.toText = .ok e)) := by
  have hread := ofText_toText e
  simp only [unbracket_hostText_eq_nil_iff] at hread
  refine ⟨fun hlost => hread.trans (if_pos hlost), fun hhost => ?_, fun hd h6 => ?_⟩
  · rw [if_neg hhost] at hread
    have hread? := congrArg Except.toOption hread
    exact ⟨_, hread, rfl, reread_eq_iff hread?, (reread_toText_iff hread?).trans not_bracketed_iff⟩
  · have hip : ∀ x, e.ip? ≠ some (.v6 x) := fun x => ip?_of_not_enclosed hd ▸ h6 x
    have htext := hostText_of_ne hip
    have hsplit := e.splitLast_render
    rw [htext] at hsplit
    refine ⟨?_, ?_, fun hhost => ?_⟩
    · apply String.toList_injective
      rw [toText, String.toList_ofList, render_eq, htext]
      simp [Decimal.render]
    · rwa [toText, String.toList_ofList]
    · have hlost : ¬ (e.host = "" ∨ e.host = "[]") := by
        rintro (hnil | hnil)
        · exact hhost hnil
        · exact hd ⟨"", hnil⟩
      rw [hread, if_neg hlost, htext, unbracket_of_not_enclosed hd, String.ofList_toList]

/-- Each reading takes off one pair of brackets, and printing puts none around a name. -/
example : ofText (toText ⟨"[[a:b]]", 80⟩) = .ok ⟨"[a:b]", 80⟩ := by rfl

end Endpoint

end SocksChain
