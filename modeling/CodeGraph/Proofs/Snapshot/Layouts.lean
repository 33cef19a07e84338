import CodeGraph.Snapshot.Bytes
import Mathlib

/-!
# Laws of byte layouts

A layout is `Lawful` for the values that fit it if

* what it has written is read back, whatever follows (`read_write`);
* a front of what it reads is read alike or ends early (`steady`): no cut makes it
  read something else;
* what is read fits, and at least its weight in bytes has been taken for it (`fits_of_read`,
  `weight_le`).

What does not fit is a length or a number that does not go into the bytes there are for it. The laws
pass from parts to wholes: `Lawful.list`, `Lawful.pair`, `Lawful.via`.
-/

namespace CodeGraph.Snapshot

variable {α β : Type}

/-! ## Steps of a reader -/

theorem bind_eq_ok {ε : Type} {x : Except ε α} {f : α → Except ε β} {b : β} :
    (x >>= f) = .ok b ↔ ∃ a, x = .ok a ∧ f a = .ok b := by
  cases x with
  | error e => simp [bind, Except.bind]
  | ok a => simp [bind, Except.bind]

theorem ok_bind {ε : Type} (a : α) (f : α → Except ε β) : (Except.ok a >>= f) = f a := rfl

/-- A front of what is read is read alike or ends early. -/
def Steady (read : Reader α) : Prop :=
  ∀ front more a rest, read (front ++ more) = .ok (a, rest) →
    (∃ left, read front = .ok (a, left) ∧ left ++ more = rest) ∨ read front = .error .endsEarly

theorem Steady.ofExcept (x : Except Fault α) :
    Steady fun bs => (do let a ← x; return (a, bs)) := by
  intro front more a rest h
  obtain ⟨b, rfl, h⟩ := bind_eq_ok.1 h
  cases h
  exact .inl ⟨front, rfl, rfl⟩

theorem Steady.bind {read : Reader α} {next : α × Bytes → Except Fault (β × Bytes)}
    (h : Steady read) (hnext : ∀ a, Steady fun rest => next (a, rest)) :
    Steady fun bs => read bs >>= next := by
  intro front more b rest hb
  obtain ⟨⟨a, mid⟩, ha, hb⟩ := bind_eq_ok.1 hb
  rcases h _ _ _ _ ha with ⟨left, hleft, rfl⟩ | hend
  · simp only [hleft]
    exact hnext a _ _ _ _ hb
  · exact .inr (by simp only [hend]; rfl)

theorem Steady.map {read : Reader α} (h : Steady read) (f : α → β) :
    Steady fun bs => (do return (← read bs).map f id) :=
  Steady.bind h fun a => Steady.ofExcept (.ok (f a))

/-- The laws of a layout. -/
structure Layout.Lawful (L : Layout α) (fits : α → Prop) (weight : α → Nat) : Prop where
  read_write : ∀ {a}, fits a → ∀ rest, L.read (L.write a ++ rest) = .ok (a, rest)
  steady : Steady L.read
  fits_of_read : ∀ {bs a rest}, L.read bs = .ok (a, rest) → fits a
  weight_le : ∀ {bs a rest}, L.read bs = .ok (a, rest) → weight a + rest.length ≤ bs.length

/-! ## Numbers -/

theorem readNat_writeNat {width n : Nat} (h : n < 256 ^ width) (rest : Bytes) :
    readNat width (writeNat width n ++ rest) = .ok (n, rest) := by
  induction width generalizing n with
  | zero =>
    have : n = 0 := by simpa using h
    rw [this]; rfl
  | succ width ih =>
    have hlow : n / 256 < 256 ^ width := by
      rw [Nat.pow_succ] at h
      exact Nat.div_lt_of_lt_mul (by omega)
    have hbyte : (UInt8.ofNat n).toNat + 256 * (n / 256) = n := by
      rw [UInt8.toNat_ofNat']
      omega
    simp only [writeNat, List.cons_append, readNat, ih hlow]
    exact congrArg (fun m => Except.ok (m, rest)) hbyte

theorem steady_readNat (width : Nat) : Steady (readNat width) := by
  induction width with
  | zero => exact Steady.ofExcept (.ok 0)
  | succ width ih =>
    intro front more a rest h
    cases front with
    | nil => exact .inr rfl
    | cons b front =>
      exact Steady.bind ih (fun n => Steady.ofExcept (.ok (b.toNat + 256 * n))) _ _ _ _ h

theorem readNat_eq_ok {width n : Nat} {bs rest : Bytes} (h : readNat width bs = .ok (n, rest)) :
    n < 256 ^ width ∧ width + rest.length = bs.length := by
  induction width generalizing n bs with
  | zero => cases h; simp
  | succ width ih =>
    cases bs with
    | nil => cases h
    | cons b bs =>
      obtain ⟨⟨m, left⟩, hm, h⟩ := bind_eq_ok.1 h
      cases h
      obtain ⟨hlt, hlen⟩ := ih hm
      have := b.toNat_lt
      rw [Nat.pow_succ, List.length_cons]
      omega

theorem lawful_readNat (width : Nat) :
    (⟨writeNat width, readNat width⟩ : Layout Nat).Lawful (· < 256 ^ width) fun _ => width where
  read_write h := readNat_writeNat h
  steady := steady_readNat width
  fits_of_read h := (readNat_eq_ok h).1
  weight_le h := Nat.le_of_eq (readNat_eq_ok h).2

/-! ## Texts -/

theorem readBytes_append (front rest : Bytes) :
    readBytes front.length (front ++ rest) = .ok (front, rest) := by
  induction front with
  | nil => rfl
  | cons b front ih => simp only [List.length_cons, List.cons_append, readBytes, ih]; rfl

theorem steady_readBytes (count : Nat) : Steady (readBytes count) := by
  induction count with
  | zero => exact Steady.ofExcept (.ok [])
  | succ count ih =>
    intro front more a rest h
    cases front with
    | nil => exact .inr rfl
    | cons b front =>
      exact Steady.bind ih (fun bytes => Steady.ofExcept (.ok (b :: bytes))) _ _ _ _ h

theorem readBytes_eq_ok {count : Nat} {bs front rest : Bytes}
    (h : readBytes count bs = .ok (front, rest)) :
    front.length = count ∧ count + rest.length = bs.length := by
  induction count generalizing bs front with
  | zero => cases h; simp
  | succ count ih =>
    cases bs with
    | nil => cases h
    | cons b bs =>
      obtain ⟨⟨bytes, left⟩, hb, h⟩ := bind_eq_ok.1 h
      cases h
      obtain ⟨hcount, hlen⟩ := ih hb
      simp only [List.length_cons]
      omega

theorem decode_toByteArray (s : String) : Text.decode s.toByteArray.data.toList = .ok s := by
  have : Text.decode? s.toByteArray.data.toList = some s := by
    simp only [Text.decode?, String.fromUTF8?, Array.toArray_toList]
    exact dif_pos s.isValidUTF8
  rw [Text.decode, this]

theorem utf8ByteSize_of_decode {bytes : Bytes} {s : String} (h : Text.decode bytes = .ok s) :
    s.utf8ByteSize = bytes.length := by
  unfold Text.decode at h
  split at h
  case h_2 => cases h
  case h_1 t ht =>
    cases h
    rw [Text.decode?, String.fromUTF8?] at ht
    split at ht
    · cases ht; rfl
    · cases ht

/-- A length in bytes that a word can hold. -/
def TextFits (s : String) : Prop := s.utf8ByteSize < 2 ^ 64

instance (s : String) : Decidable (TextFits s) :=
  inferInstanceAs (Decidable (s.utf8ByteSize < 2 ^ 64))

namespace Layout

theorem lawful_word : word.Lawful (· < 2 ^ 64) fun _ => 8 := lawful_readNat 8

theorem lawful_tag : tag.Lawful (· < 2 ^ 32) fun _ => 4 := lawful_readNat 4

theorem lawful_bool : bool.Lawful (fun _ => True) fun _ => 1 where
  read_write {b} _ rest := by cases b <;> rfl
  steady := by
    intro front more a rest h
    cases front with
    | nil => exact .inr rfl
    | cons byte front =>
      simp only [bool, List.cons_append] at h ⊢
      split at h
      all_goals simp_all
  fits_of_read _ := trivial
  weight_le {bs a rest} h := by
    simp only [bool] at h
    split at h
    all_goals cases h
    all_goals simp only [List.length_cons]; omega

theorem read_text_eq_ok {bs rest : Bytes} {s : String} (h : text.read bs = .ok (s, rest)) :
    ∃ count front left, word.read bs = .ok (count, left) ∧
      readBytes count left = .ok (front, rest) ∧
      Text.decode front = .ok s := by
  obtain ⟨⟨count, left⟩, hcount, h⟩ := bind_eq_ok.1 h
  obtain ⟨⟨front, left'⟩, hfront, h⟩ := bind_eq_ok.1 h
  obtain ⟨t, ht, h⟩ := bind_eq_ok.1 h
  cases h
  refine ⟨count, front, left, hcount, hfront, ?_⟩
  cases hd : Text.decode front with
  | error fault => rw [hd] at ht; cases ht
  | ok t => rw [hd] at ht; cases ht; rfl

theorem lawful_text : text.Lawful TextFits fun _ => 8 where
  read_write {s} hs rest := by
    have hlen : s.toByteArray.data.toList.length = s.utf8ByteSize := rfl
    have hcount := lawful_word.read_write hs (s.toByteArray.data.toList ++ rest)
    have hbytes := readBytes_append s.toByteArray.data.toList rest
    rw [hlen] at hbytes
    simp only [text, List.append_assoc, hcount, ok_bind, hbytes, decode_toByteArray]
    rfl
  steady := Steady.bind lawful_word.steady fun count =>
    Steady.bind (steady_readBytes count) fun front =>
      Steady.ofExcept ((Text.decode front).mapError .notText)
  fits_of_read {bs s rest} h := by
    obtain ⟨count, front, left, hcount, hfront, hs⟩ := read_text_eq_ok h
    have hlt : count < 2 ^ 64 := lawful_word.fits_of_read hcount
    rw [TextFits, utf8ByteSize_of_decode hs, (readBytes_eq_ok hfront).1]
    exact hlt
  weight_le {bs s rest} h := by
    obtain ⟨count, front, left, hcount, hfront, -⟩ := read_text_eq_ok h
    have := lawful_word.weight_le hcount
    have := readBytes_eq_ok hfront
    omega

/-! ## Lists, pairs and types written as others -/

variable {item : Layout α} {first : Layout α} {second : Layout β} {fits : α → Prop}
  {weight : α → Nat} {fits' : β → Prop} {weight' : β → Nat}

theorem Lawful.readMany_flatMap (h : item.Lawful fits weight) {as : List α}
    (hfits : ∀ a ∈ as, fits a) (rest : Bytes) :
    readMany item.read as.length (as.flatMap item.write ++ rest) = .ok (as, rest) := by
  induction as with
  | nil => rfl
  | cons a as ih =>
    have ha := h.read_write (hfits a List.mem_cons_self) (as.flatMap item.write ++ rest)
    have has := ih fun b hb => hfits b (List.mem_cons_of_mem _ hb)
    simp only [List.length_cons, List.flatMap_cons, List.append_assoc, readMany, ha, ok_bind, has]
    rfl

theorem steady_readMany {read : Reader α} (h : Steady read) (count : Nat) :
    Steady (readMany read count) := by
  induction count with
  | zero => exact Steady.ofExcept (.ok [])
  | succ count ih =>
    exact Steady.bind h fun a => Steady.bind ih fun as => Steady.ofExcept (.ok (a :: as))

theorem Lawful.of_readMany (h : item.Lawful fits weight) {count : Nat} {bs rest : Bytes}
    {as : List α} (hread : readMany item.read count bs = .ok (as, rest)) :
    as.length = count ∧ (∀ a ∈ as, fits a) ∧ (as.map weight).sum + rest.length ≤ bs.length := by
  induction count generalizing bs as with
  | zero => cases hread; simp
  | succ count ih =>
    obtain ⟨⟨a, mid⟩, ha, hread⟩ := bind_eq_ok.1 hread
    obtain ⟨⟨as', rest'⟩, has, hread⟩ := bind_eq_ok.1 hread
    cases hread
    obtain ⟨hlen, hall, hsum⟩ := ih has
    have hle := h.weight_le ha
    refine ⟨by rw [List.length_cons, hlen], ?_, ?_⟩
    · intro b hb
      rcases List.mem_cons.1 hb with rfl | hb
      · exact h.fits_of_read ha
      · exact hall b hb
    · rw [List.map_cons, List.sum_cons]
      omega

theorem Lawful.list (h : item.Lawful fits weight) :
    (Layout.list item).Lawful (fun as => as.length < 2 ^ 64 ∧ ∀ a ∈ as, fits a)
      fun as => (as.map weight).sum where
  read_write {as} has rest := by
    simp only [Layout.list, List.append_assoc, lawful_word.read_write has.1]
    exact h.readMany_flatMap has.2 rest
  steady := Steady.bind lawful_word.steady fun count => steady_readMany h.steady count
  fits_of_read hread := by
    obtain ⟨⟨count, left⟩, hcount, hread⟩ := bind_eq_ok.1 hread
    obtain ⟨hlen, hall, -⟩ := h.of_readMany hread
    exact ⟨hlen ▸ lawful_word.fits_of_read hcount, hall⟩
  weight_le hread := by
    obtain ⟨⟨count, left⟩, hcount, hread⟩ := bind_eq_ok.1 hread
    have := lawful_word.weight_le hcount
    have := (h.of_readMany hread).2.2
    omega

theorem Lawful.pair (h : first.Lawful fits weight) (h' : second.Lawful fits' weight') :
    (first.pair second).Lawful (fun p => fits p.1 ∧ fits' p.2)
      fun p => weight p.1 + weight' p.2 where
  read_write {p} hp rest := by
    simp only [Layout.pair, List.append_assoc, h.read_write hp.1, ok_bind, h'.read_write hp.2]
    rfl
  steady := Steady.bind h.steady fun a => Steady.bind h'.steady fun b =>
    Steady.ofExcept (.ok (a, b))
  fits_of_read hread := by
    obtain ⟨⟨a, left⟩, ha, hread⟩ := bind_eq_ok.1 hread
    obtain ⟨⟨b, left'⟩, hb, hread⟩ := bind_eq_ok.1 hread
    cases hread
    exact ⟨h.fits_of_read ha, h'.fits_of_read hb⟩
  weight_le hread := by
    obtain ⟨⟨a, left⟩, ha, hread⟩ := bind_eq_ok.1 hread
    obtain ⟨⟨b, left'⟩, hb, hread⟩ := bind_eq_ok.1 hread
    cases hread
    have := h.weight_le ha
    have := h'.weight_le hb
    simp only
    omega

/-- The laws pass to a type that is written as another one, if the meaning of an image is what it is
the image of. -/
theorem Lawful.via (h : first.Lawful fits weight) {image : β → α} {meaning : α → Except Fault β}
    (himage : ∀ b, fits' b → fits (image b) ∧ meaning (image b) = .ok b)
    (hmeaning : ∀ a b, fits a → meaning a = .ok b → fits' b ∧ weight' b ≤ weight a) :
    (first.via image meaning).Lawful fits' weight' where
  read_write {b} hb rest := by
    obtain ⟨ha, hb⟩ := himage b hb
    simp only [Layout.via, h.read_write ha, ok_bind, hb]
    rfl
  steady := Steady.bind h.steady fun a => Steady.ofExcept (meaning a)
  fits_of_read {_ b _} hread := by
    obtain ⟨⟨a, left⟩, ha, hread⟩ := bind_eq_ok.1 hread
    obtain ⟨b, hb, hread⟩ := bind_eq_ok.1 hread
    cases hread
    exact (hmeaning a b (h.fits_of_read ha) hb).1
  weight_le {_ b _} hread := by
    obtain ⟨⟨a, left⟩, ha, hread⟩ := bind_eq_ok.1 hread
    obtain ⟨b, hb, hread⟩ := bind_eq_ok.1 hread
    cases hread
    have := h.weight_le ha
    have := (hmeaning a b (h.fits_of_read ha) hb).2
    omega

theorem lawful_choice [DecidableEq α] {all : List α} (hall : ∀ a, a ∈ all)
    (hlen : all.length ≤ 2 ^ 32) : (choice all).Lawful (fun _ => True) fun _ => 4 := by
  refine lawful_tag.via (fun a _ => ?_) fun n a _ _ => ⟨trivial, Nat.le_refl 4⟩
  have hidx : all.idxOf a < all.length := List.idxOf_lt_length_of_mem (hall a)
  refine ⟨by omega, ?_⟩
  rw [List.getElem?_eq_getElem hidx, List.getElem_idxOf]

end Layout

/-! ## Cuts -/

end CodeGraph.Snapshot
