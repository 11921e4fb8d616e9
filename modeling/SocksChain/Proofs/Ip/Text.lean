import SocksChain.Ip.Text
import SocksChain.Proofs.Text.Digits

/-!
The text of an IP address reads back as that address. Four octets have no other text; sixteen octets
have many, and the one that is printed shortens the longest run of zero groups. No text of an
address is long, and none has a bracket.
-/

namespace SocksChain.Ip

open Text

theorem not_mem_intercalate {c sep : Char} {ls : List (List Char)} (hc : c ≠ sep)
    (h : ∀ l ∈ ls, c ∉ l) : c ∉ [sep].intercalate ls := by
  induction ls with
  | nil => exact nofun
  | cons l ls ih =>
    obtain ⟨hl, hls⟩ := List.forall_mem_cons.1 h
    cases ls with
    | nil => rwa [List.intercalate_singleton]
    | cons l' ls =>
      rw [List.intercalate_cons_cons, List.append_assoc, List.mem_append, List.mem_append,
        List.mem_singleton]
      exact not_or.2 ⟨hl, not_or.2 ⟨hc, ih hls⟩⟩

/-! ## Four octets -/

theorem octet?_render (o : UInt8) : octet? (Decimal.render o.toNat) = some o := by
  have all : ∀ n < 256, octet? (Decimal.render n) = some (UInt8.ofNat n) := by decide +kernel
  rw [all _ o.toNat_lt, UInt8.ofNat_toNat]

theorem eq_render_of_octet? {s : List Char} {o : UInt8} (h : octet? s = some o) :
    s = Decimal.render o.toNat := by
  unfold octet? at h
  split at h
  · cases h
  · cases h
  · rename_i hz hp
    split at h
    · obtain ⟨n, hn, rfl⟩ := Option.map_eq_some_iff.1 h
      have hle := Decimal.le_of_read? hn
      rw [UInt8.toNat_ofNat_of_lt' (Nat.lt_succ_of_le hle)]
      refine Decimal.eq_render_of_read? hn ?_ hz
      intro hs
      obtain ⟨rest, rfl⟩ := List.head?_eq_some_iff.1 hs
      exact hp rest rfl
    · cases h

theorem eq_render_of_octets? {fields : List (List Char)} {os : List UInt8}
    (h : fields.mapM octet? = some os) : fields = os.map fun o => Decimal.render o.toNat := by
  induction fields generalizing os with
  | nil =>
    cases h
    rfl
  | cons f fields ih =>
    rw [List.mapM_cons] at h
    obtain ⟨o, ho, h⟩ := Option.bind_eq_some_iff.1 h
    obtain ⟨rest, hrest, he⟩ := Option.bind_eq_some_iff.1 h
    cases he
    rw [eq_render_of_octet? ho, ih hrest, List.map_cons]

namespace V4

theorem not_mem_render {c : Char} (hd : Decimal.digit? c = none) (hc : c ≠ '.') (x : V4) :
    c ∉ x.render := by
  refine not_mem_intercalate hc fun l hl => ?_
  obtain ⟨o, -, rfl⟩ := List.mem_map.1 hl
  exact Decimal.not_mem_render hd

theorem parse?_render (x : V4) : parse? x.render = some x := by
  have hs : x.render.splitOn '.' = x.octets.map fun o => Decimal.render o.toNat := by
    refine List.splitOn_intercalate _ (fun l hl => ?_) (by simp [octets])
    obtain ⟨o, -, rfl⟩ := List.mem_map.1 hl
    exact Decimal.not_mem_render rfl
  rw [parse?, hs]
  simp only [octets, List.map_cons, List.map_nil, List.mapM_cons, List.mapM_nil, octet?_render]
  rfl

/-- Four octets are written in one way only. -/
theorem eq_render_of_parse? {s : List Char} {x : V4} (h : parse? s = some x) : s = x.render := by
  unfold parse? at h
  split at h
  · rename_i a b c d hm
    cases h
    exact (List.intercalate_splitOn '.').symm.trans (congrArg _ (eq_render_of_octets? hm))
  · cases h

end V4

/-! ## Groups -/

/-- How a group is printed. -/
def field (g : UInt16) : List Char := Nat.toDigits 16 g.toNat

theorem not_mem_field {c : Char} (h : Hex.digit? c = none) (g : UInt16) : c ∉ field g :=
  Hex.not_mem_toDigits h

theorem field_ne_nil (g : UInt16) : field g ≠ [] := Nat.toDigits_ne_nil

theorem group?_field (g : UInt16) : group? (field g) = some g := by
  have hg := g.toNat_lt
  have hl : (field g).length ≤ 4 := (Nat.length_toDigits_le_iff (by decide) (by decide)).2 hg
  have h0 : (field g).length ≠ 0 := fun h => field_ne_nil g (List.eq_nil_of_length_eq_zero h)
  obtain ⟨ds, hd, hv⟩ := Hex.mapM_digit?_toDigits g.toNat
  rw [group?, if_neg (by omega), field, hd, Option.map_some, hv, UInt16.ofNat_toNat]

/-- What has no dot is not four octets. -/
theorem V4.parse?_of_not_mem {s : List Char} (h : '.' ∉ s) : V4.parse? s = none := by
  rw [V4.parse?, List.splitOn_eq_singleton h]
  cases ho : octet? s <;> simp [ho]

theorem fieldGroups?_fields (gs : List UInt16) : fieldGroups? (gs.map field) = some gs := by
  induction gs with
  | nil => rfl
  | cons g gs ih =>
    cases gs with
    | nil =>
      rw [List.map_cons, List.map_nil, fieldGroups?, V4.parse?_of_not_mem (not_mem_field rfl g),
        group?_field]
      rfl
    | cons g' gs =>
      rw [List.map_cons, List.map_cons, fieldGroups?, group?_field, Option.bind_some,
        ← List.map_cons, ih]
      · rfl
      · exact nofun

theorem renderGroups_eq (gs : List UInt16) : renderGroups gs = [':'].intercalate (gs.map field) :=
  rfl

theorem not_mem_renderGroups {c : Char} (hd : Hex.digit? c = none) (hc : c ≠ ':')
    (gs : List UInt16) : c ∉ renderGroups gs := by
  refine not_mem_intercalate hc fun l hl => ?_
  obtain ⟨g, -, rfl⟩ := List.mem_map.1 hl
  exact not_mem_field hd g

theorem groups?_renderGroups (gs : List UInt16) : groups? (renderGroups gs) = some gs := by
  cases gs with
  | nil => rfl
  | cons g gs =>
    have hs : (renderGroups (g :: gs)).splitOn ':' = (g :: gs).map field := by
      refine List.splitOn_intercalate _ (fun l hl => ?_) (by simp)
      obtain ⟨g, -, rfl⟩ := List.mem_map.1 hl
      exact not_mem_field rfl g
    have hn : renderGroups (g :: gs) ≠ [] := by
      intro he
      rw [he] at hs
      have hf : [] = field g := (List.cons.inj hs).1
      exact field_ne_nil g hf.symm
    rw [groups?, if_neg hn, hs, fieldGroups?_fields]

/-! ## The gap -/

theorem splitGap_append {a : List Char} (h : ':' ∉ a) (r : List Char) :
    splitGap (a ++ r) = (splitGap r).map fun (f, t) => (a ++ f, t) := by
  induction a with
  | nil => cases hr : splitGap r <;> simp [hr]
  | cons c a ih =>
    obtain ⟨hc, ha⟩ := not_or.1 (mt List.mem_cons.2 h)
    rw [List.cons_append, splitGap, ih ha]
    · cases splitGap r <;> rfl
    · exact fun rest hr => absurd hr.symm hc

/-- A colon in front of a group is not a gap. -/
theorem splitGap_colon {c : Char} (h : c ≠ ':') (r : List Char) :
    splitGap (':' :: c :: r) = (splitGap (c :: r)).map fun (f, t) => (':' :: f, t) := by
  rw [splitGap]
  intro rest _ hr
  exact h (List.cons.inj hr).1

theorem renderGroups_cons_cons (g g' : UInt16) (gs : List UInt16) :
    renderGroups (g :: g' :: gs) = field g ++ ':' :: renderGroups (g' :: gs) := by
  simp only [renderGroups_eq, List.map_cons, List.intercalate_cons_cons, List.append_assoc]
  rfl

theorem exists_renderGroups_cons (g : UInt16) (gs : List UInt16) :
    ∃ c r, renderGroups (g :: gs) = c :: r ∧ c ≠ ':' := by
  have hg : ':' ∉ field g := not_mem_field rfl g
  match hf : field g with
  | [] => exact absurd hf (field_ne_nil g)
  | c :: r =>
    rw [hf] at hg
    have hc : c ≠ ':' := fun he => hg (he ▸ List.mem_cons_self)
    cases gs with
    | nil =>
      exact ⟨c, r, by rw [renderGroups_eq, List.map_singleton, hf, List.intercalate_singleton], hc⟩
    | cons g' gs => exact ⟨c, _, by rw [renderGroups_cons_cons, hf]; rfl, hc⟩

/-- Groups with single colons between them have no gap, and make none with what follows. -/
theorem splitGap_renderGroups_append (gs : List UInt16) (r : List Char) :
    splitGap (renderGroups gs ++ r) = (splitGap r).map fun (f, t) => (renderGroups gs ++ f, t) := by
  induction gs with
  | nil => exact (congrFun Option.map_id (splitGap r)).symm
  | cons g gs ih =>
    cases gs with
    | nil =>
      rw [renderGroups_eq, List.map_singleton, List.intercalate_singleton]
      exact splitGap_append (not_mem_field rfl g) r
    | cons g' gs =>
      obtain ⟨c, t, hr, hc⟩ := exists_renderGroups_cons g' gs
      rw [hr] at ih
      rw [renderGroups_cons_cons, hr, List.append_assoc, splitGap_append (not_mem_field rfl g),
        List.cons_append, List.cons_append, splitGap_colon hc, ← List.cons_append, ih]
      cases splitGap r with
      | none => rfl
      | some p => simp

theorem splitGap_renderGroups (gs : List UInt16) : splitGap (renderGroups gs) = none := by
  have h := splitGap_renderGroups_append gs []
  rwa [List.append_nil] at h

theorem zeroRun_le (gs : List UInt16) : zeroRun gs ≤ gs.length :=
  (List.takeWhile_prefix _).length_le

theorem take_zeroRun (gs : List UInt16) :
    gs.take (zeroRun gs) = List.replicate (zeroRun gs) 0 := by
  unfold zeroRun
  induction gs with
  | nil => rfl
  | cons g gs ih =>
    rw [List.takeWhile_cons]
    split
    · rename_i hg
      rw [List.length_cons, List.take_succ_cons, ih, List.replicate_succ, eq_of_beq hg]
    · rfl

/-- The longest run of zero groups lies within the groups and consists of zeros. -/
theorem longestZeros_spec (k : Nat) (gs : List UInt16) :
    ∃ i, (longestZeros k gs).1 = k + i ∧ i + (longestZeros k gs).2 ≤ gs.length ∧
      (gs.drop i).take (longestZeros k gs).2 = List.replicate (longestZeros k gs).2 0 := by
  induction gs generalizing k with
  | nil => exact ⟨0, rfl, Nat.le_refl _, rfl⟩
  | cons g gs ih =>
    have h : longestZeros k (g :: gs) = if (longestZeros (k + 1) gs).2 ≤ zeroRun (g :: gs) then
        (k, zeroRun (g :: gs)) else longestZeros (k + 1) gs := rfl
    rw [h]
    split
    · refine ⟨0, rfl, ?_, take_zeroRun _⟩
      rw [Nat.zero_add]
      exact zeroRun_le _
    · obtain ⟨i, hi, hl, hz⟩ := ih (k + 1)
      refine ⟨i + 1, ?_, ?_, ?_⟩
      · rw [hi]
        omega
      · rw [List.length_cons]
        omega
      · exact hz

/-! ## Sixteen octets -/

namespace V6

theorem length_groups (x : V6) : x.groups.length = 8 := rfl

/-- A mapped address is six fixed groups and the two that four octets make. -/
theorem groups_of_mapped? {x : V6} {y : V4} (h : x.mapped? = some y) :
    x.groups = [0, 0, 0, 0, 0, 0xffff, Bytes.word y.a y.b, Bytes.word y.c y.d] := by
  unfold mapped? at h
  split at h
  · rename_i ht
    have hw : ∀ g : UInt16, Bytes.word (UInt8.ofNat (g.toNat / 256)) (UInt8.ofNat g.toNat) = g :=
      Bytes.word_ofWord
    cases h
    dsimp only
    rw [hw, hw, ← List.take_append_drop 6 x.groups, ht]
    rfl
  · cases h

theorem parse?_render_of_mapped {x : V6} {y : V4} (h : x.mapped? = some y) :
    parse? ("::ffff:".toList ++ y.render) = some x := by
  have hc : ':' ∉ y.render := V4.not_mem_render rfl (by decide) y
  have he : "ffff:".toList ++ y.render = [':'].intercalate ["ffff".toList, y.render] := by
    rw [List.intercalate_cons_cons, List.intercalate_singleton]
    rfl
  have hs : ("ffff:".toList ++ y.render).splitOn ':' = ["ffff".toList, y.render] := by
    rw [he]
    refine List.splitOn_intercalate ':' (fun l hl => ?_) (List.cons_ne_nil _ _)
    obtain rfl | hl := List.mem_cons.1 hl
    · decide
    · rwa [List.mem_singleton.1 hl]
  have hn : "ffff:".toList ++ y.render ≠ [] := nofun
  have hf : group? "ffff".toList = some 0xffff := by decide
  have hg : groups? ("ffff:".toList ++ y.render) =
      some [0xffff, Bytes.word y.a y.b, Bytes.word y.c y.d] := by
    rw [groups?, if_neg hn, hs, fieldGroups?, fieldGroups?, V4.parse?_render, hf]
    · rfl
    · exact nofun
  have hp : splitGap ("::ffff:".toList ++ y.render) = some ([], "ffff:".toList ++ y.render) := rfl
  have hx := ofGroups?_groups x
  rw [groups_of_mapped? h] at hx
  rw [parse?, hp]
  dsimp only
  rw [hg]
  exact hx

/-- Zeros may be left out of the groups, if there are at least two of them. -/
theorem parse?_of_zeros {x : V6} {i n : Nat} (hn : 1 < n) (hl : i + n ≤ 8)
    (hz : (x.groups.drop i).take n = List.replicate n 0) :
    parse? (renderGroups (x.groups.take i) ++ [':', ':'] ++ renderGroups (x.groups.drop (i + n))) =
      some x := by
  have hg : splitGap (renderGroups (x.groups.take i) ++ [':', ':'] ++
      renderGroups (x.groups.drop (i + n))) =
        some (renderGroups (x.groups.take i), renderGroups (x.groups.drop (i + n))) := by
    rw [List.append_assoc, splitGap_renderGroups_append]
    simp [splitGap]
  have hd : (renderGroups (x.groups.take i)).contains '.' = false := by
    rw [List.contains_eq_mem]
    exact decide_eq_false (not_mem_renderGroups rfl (by decide) _)
  have ht : (x.groups.take i).length = i := by
    rw [List.length_take, length_groups]
    omega
  have hr : (x.groups.drop (i + n)).length = 8 - (i + n) := by
    rw [List.length_drop, length_groups]
  have hrep : 8 - i - (8 - (i + n)) = n := by omega
  have hx : x.groups.take i ++ List.replicate n 0 ++ x.groups.drop (i + n) = x.groups := by
    rw [← hz, ← List.drop_drop, List.append_assoc, List.take_append_drop, List.take_append_drop]
  rw [parse?, hg]
  dsimp only
  rw [hd, groups?_renderGroups, groups?_renderGroups, if_neg Bool.false_ne_true]
  dsimp only
  rw [ht, hr, if_pos (by omega), hrep, hx]
  exact ofGroups?_groups x

theorem parse?_render (x : V6) : parse? x.render = some x := by
  unfold render
  split
  · rename_i y hy
    exact parse?_render_of_mapped hy
  · dsimp only
    split
    · rename_i hgap
      obtain ⟨i, hi, hl, hz⟩ := longestZeros_spec 0 x.groups
      rw [hi, Nat.zero_add]
      exact parse?_of_zeros hgap hl hz
    · rw [parse?, splitGap_renderGroups]
      dsimp only
      rw [groups?_renderGroups]
      exact ofGroups?_groups x

/-- What stands in the text of an address: hexadecimal digits, colons and dots. -/
theorem not_mem_render {c : Char} (hx : Hex.digit? c = none) (hd : Decimal.digit? c = none)
    (hc : c ≠ ':') (hp : c ≠ '.') (x : V6) : c ∉ x.render := by
  have hg := not_mem_renderGroups hx hc
  unfold render
  split
  · rename_i y _
    intro hm
    obtain hm | hm := List.mem_append.1 hm
    · have hf : c = ':' ∨ c = 'f' ∨ c = ':' := by simpa using hm
      obtain rfl | rfl | rfl := hf
      · exact hc rfl
      · cases hx
      · exact hc rfl
    · exact V4.not_mem_render hd hp y hm
  · dsimp only
    split
    · intro hm
      obtain hm | hm := List.mem_append.1 hm
      · obtain hm | hm := List.mem_append.1 hm
        · exact hg _ hm
        · exact hc (by simpa using hm)
      · exact hg _ hm
    · exact hg _

theorem colon_mem_render (x : V6) : ':' ∈ x.render := by
  unfold render
  split
  · exact List.mem_append_left _ List.mem_cons_self
  · dsimp only
    split
    · exact List.mem_append_left _ (List.mem_append_right _ List.mem_cons_self)
    · rw [groups, renderGroups_cons_cons]
      exact List.mem_append_right _ List.mem_cons_self

end V6

namespace Address

/-- The text of an address reads back as that address. -/
theorem parse?_render (a : Address) : parse? a.render = some a := by
  cases a with
  | v4 x => simp only [render, parse?, V4.parse?_render]
  | v6 x =>
    have h : V4.parse? x.render = none := by
      refine Option.eq_none_iff_forall_ne_some.2 fun y hy => ?_
      have hm := x.colon_mem_render
      rw [V4.eq_render_of_parse? hy] at hm
      exact V4.not_mem_render rfl (by decide) y hm
    simp only [render, parse?, h, V6.parse?_render, Option.map_some]

theorem eq_render_of_parse?_v4 {s : List Char} {x : V4} (h : parse? s = some (.v4 x)) :
    s = x.render := by
  unfold parse? at h
  split at h
  · rename_i y hy
    cases h
    exact V4.eq_render_of_parse? hy
  · obtain ⟨y, -, he⟩ := Option.map_eq_some_iff.1 h
    cases he

theorem not_mem_render (a : Address) : '[' ∉ a.render := by
  cases a with
  | v4 x => exact V4.not_mem_render rfl (by decide) x
  | v6 x => exact V6.not_mem_render rfl rfl (by decide) (by decide) x

end Address

/-! ## Length -/

theorem V4.length_render_le (x : V4) : x.render.length ≤ 15 := by
  have h (o : UInt8) : (Decimal.render o.toNat).length ≤ 3 :=
    (Nat.length_toDigits_le_iff (by decide) (by decide)).2 (Nat.lt_trans o.toNat_lt (by decide))
  have ha := h x.a
  have hb := h x.b
  have hc := h x.c
  have hd := h x.d
  simp only [render, octets, List.map_cons, List.map_nil, List.intercalate_cons_cons,
    List.intercalate_singleton, List.length_append, List.length_singleton]
  omega

theorem V4.length_le_of_parse? {s : List Char} {x : V4} (h : V4.parse? s = some x) :
    s.length ≤ 15 :=
  eq_render_of_parse? h ▸ x.length_render_le

theorem length_le_of_group? {s : List Char} {g : UInt16} (h : group? s = some g) :
    s.length ≤ 4 := by
  unfold group? at h
  split at h
  · cases h
  · rename_i hl
    exact Nat.not_lt.1 (not_or.1 hl).2

/-- A field makes one group; only the last one may be longer, and then it makes two. -/
theorem length_le_of_fieldGroups? {fields : List (List Char)} {gs : List UInt16}
    (h : fieldGroups? fields = some gs) :
    ([':'].intercalate fields).length ≤ 5 * gs.length + 5 := by
  induction fields generalizing gs with
  | nil => exact Nat.zero_le _
  | cons f fields ih =>
    cases fields with
    | nil =>
      rw [fieldGroups?] at h
      rw [List.intercalate_singleton]
      split at h
      · rename_i x hx
        cases h
        exact V4.length_le_of_parse? hx
      · obtain ⟨g, hg, rfl⟩ := Option.map_eq_some_iff.1 h
        exact Nat.le_trans (length_le_of_group? hg) (Nat.le_add_left 4 6)
    | cons f' fields =>
      rw [fieldGroups?] at h
      · obtain ⟨g, hg, h⟩ := Option.bind_eq_some_iff.1 h
        obtain ⟨rest, hrest, rfl⟩ := Option.map_eq_some_iff.1 h
        have hf := length_le_of_group? hg
        have hl := ih hrest
        simp only [List.intercalate_cons_cons, List.length_append, List.length_cons,
          List.length_nil] at hl ⊢
        omega
      · exact nofun

theorem length_le_of_groups? {s : List Char} {gs : List UInt16} (h : groups? s = some gs) :
    s.length ≤ 5 * gs.length + 5 := by
  unfold groups? at h
  split at h
  · rename_i hs
    rw [hs]
    exact Nat.zero_le _
  · have hl := length_le_of_fieldGroups? h
    rwa [List.intercalate_splitOn] at hl

theorem eq_of_splitGap {s a b : List Char} (h : splitGap s = some (a, b)) :
    s = a ++ ':' :: ':' :: b := by
  induction s using splitGap.induct generalizing a b with
  | case1 rest =>
    cases h
    rfl
  | case2 c rest hn ih =>
    rw [splitGap] at h
    · obtain ⟨⟨a', b'⟩, hr, he⟩ := Option.map_eq_some_iff.1 h
      cases he
      rw [ih hr]
      rfl
    · exact hn
  | case3 => cases h

theorem V6.length_le_of_parse? {s : List Char} {x : V6} (h : V6.parse? s = some x) :
    s.length ≤ 47 := by
  have height {gs : List UInt16} (hg : ofGroups? gs = some x) : gs.length = 8 := by
    rw [← groups_of_ofGroups? hg]
    rfl
  unfold V6.parse? at h
  split at h
  · obtain ⟨gs, hs, hg⟩ := Option.bind_eq_some_iff.1 h
    have hl := length_le_of_groups? hs
    rw [height hg] at hl
    omega
  · rename_i a b hgap
    split at h
    · cases h
    · split at h
      · rename_i ga gb ha hb
        split at h
        · have hla := length_le_of_groups? ha
          have hlb := length_le_of_groups? hb
          rw [eq_of_splitGap hgap]
          simp only [List.length_append, List.length_cons]
          omega
        · cases h
      · cases h

theorem Address.length_le_of_parse? {s : List Char} {x : Address} (h : Address.parse? s = some x) :
    s.length ≤ 47 := by
  unfold Address.parse? at h
  split at h
  · rename_i hx
    exact Nat.le_trans (V4.length_le_of_parse? hx) (by decide)
  · obtain ⟨y, hy, -⟩ := Option.map_eq_some_iff.1 h
    exact V6.length_le_of_parse? hy

/-! ## Alphabet -/

section Alphabet

variable {c : Char}

theorem V4.not_mem_of_parse? {s : List Char} {x : V4} (hd : Decimal.digit? c = none) (hp : c ≠ '.')
    (h : V4.parse? s = some x) : c ∉ s :=
  eq_render_of_parse? h ▸ V4.not_mem_render hd hp x

theorem not_mem_of_mapM_digit? {s : List Char} {ds : List Nat} (hx : Hex.digit? c = none)
    (h : s.mapM Hex.digit? = some ds) : c ∉ s := by
  intro hc
  obtain ⟨front, back, rfl⟩ := List.append_of_mem hc
  simp [hx] at h

theorem not_mem_of_group? {s : List Char} {g : UInt16} (hx : Hex.digit? c = none)
    (h : group? s = some g) : c ∉ s := by
  unfold group? at h
  split at h
  · cases h
  · obtain ⟨ds, hs, -⟩ := Option.map_eq_some_iff.1 h
    exact not_mem_of_mapM_digit? hx hs

theorem not_mem_of_fieldGroups? {fields : List (List Char)} {gs : List UInt16}
    (hx : Hex.digit? c = none) (hd : Decimal.digit? c = none) (hp : c ≠ '.')
    (h : fieldGroups? fields = some gs) : ∀ f ∈ fields, c ∉ f := by
  induction fields generalizing gs with
  | nil => exact nofun
  | cons f fields ih =>
    cases fields with
    | nil =>
      intro f' hf
      obtain rfl := List.mem_singleton.1 hf
      rw [fieldGroups?] at h
      split at h
      · rename_i x hv
        exact V4.not_mem_of_parse? hd hp hv
      · obtain ⟨g, hg, -⟩ := Option.map_eq_some_iff.1 h
        exact not_mem_of_group? hx hg
    | cons f' fields =>
      rw [fieldGroups?] at h
      · obtain ⟨g, hg, h⟩ := Option.bind_eq_some_iff.1 h
        obtain ⟨rest, hrest, -⟩ := Option.map_eq_some_iff.1 h
        exact List.forall_mem_cons.2 ⟨not_mem_of_group? hx hg, ih hrest⟩
      · exact nofun

theorem not_mem_of_groups? {s : List Char} {gs : List UInt16} (hx : Hex.digit? c = none)
    (hd : Decimal.digit? c = none) (hc : c ≠ ':') (hp : c ≠ '.') (h : groups? s = some gs) :
    c ∉ s := by
  unfold groups? at h
  split at h
  · rename_i hs
    rw [hs]
    exact List.not_mem_nil
  · have hf := not_mem_intercalate hc (not_mem_of_fieldGroups? hx hd hp h)
    rwa [List.intercalate_splitOn] at hf

theorem V6.not_mem_of_parse? {s : List Char} {x : V6} (hx : Hex.digit? c = none)
    (hd : Decimal.digit? c = none) (hc : c ≠ ':') (hp : c ≠ '.') (h : V6.parse? s = some x) :
    c ∉ s := by
  unfold V6.parse? at h
  split at h
  · obtain ⟨gs, hs, -⟩ := Option.bind_eq_some_iff.1 h
    exact not_mem_of_groups? hx hd hc hp hs
  · rename_i a b hgap
    split at h
    · cases h
    · split at h
      · rename_i ga gb ha hb
        have hca := not_mem_of_groups? hx hd hc hp ha
        have hcb := not_mem_of_groups? hx hd hc hp hb
        rw [eq_of_splitGap hgap]
        simp [hca, hcb, hc]
      · cases h

/-- No text of an address has a bracket, printed or not. -/
theorem Address.not_mem_of_parse? {s : List Char} {x : Address} (h : Address.parse? s = some x) :
    '[' ∉ s := by
  unfold Address.parse? at h
  split at h
  · rename_i y hy
    exact V4.not_mem_of_parse? rfl (by decide) hy
  · obtain ⟨y, hy, -⟩ := Option.map_eq_some_iff.1 h
    exact V6.not_mem_of_parse? rfl rfl (by decide) (by decide) hy

end Alphabet

end SocksChain.Ip
