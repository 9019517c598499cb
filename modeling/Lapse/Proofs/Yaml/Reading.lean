import Lapse.Yaml.Reading
import Lapse.Proofs.Records
import Lapse.Proofs.Yaml.Node

/-!
# Reading back types from YAML

A type is read back when each of its values is read from the tree of its data.  A place of a document
answers every question about the data there as the data would: what is there is never taken for
nothing, since a text that would be is not written plain.
-/

namespace Lapse

namespace Yaml

/-- The tree of data as a place in a document. -/
def Cursor.ofData (root : Node) (d : Data) : Cursor := ⟨root, Node.ofData d⟩

/-- The values of a type are read from the tree of their data. -/
def ReadsBack (α : Type) [ToData α] [Readable α] : Prop :=
  ∀ (root : Node) (a : α), read (Cursor.ofData root (toData a)) = some a

/-! ## Words -/

theorem Word.magnitude?_digits (n : Nat) : Word.magnitude? (Decimal.digits n) = some n := by
  obtain ⟨c, rest, hdigits, hzero⟩ := Decimal.digits_eq_cons n
  by_cases hn : n = 0
  · rw [hn, Decimal.digits_eq, if_pos (by decide)]
    decide
  · have hc : c ≠ '0' := fun h => hn (hzero h)
    have hled : Word.isZeroLed (c :: rest) = false := by
      unfold Word.isZeroLed
      split
      · next heq => exact absurd (List.cons.inj heq).1 hc
      · rfl
    rw [hdigits]
    unfold Word.magnitude?
    split
    · next heq => exact absurd (List.cons.inj heq).1 hc
    · next heq => exact absurd (List.cons.inj heq).1 hc
    · next heq => exact absurd (List.cons.inj heq).1 hc
    · rw [hled, if_neg Bool.false_ne_true, ← hdigits, Decimal.read_digits]

theorem Word.natural?_digits (n : Nat) : Word.natural? (Decimal.digits n) = some n := by
  obtain ⟨c, rest, hdigits, -⟩ := Decimal.digits_eq_cons n
  have hc : c ≠ '+' := by
    refine ne_of_isDigit (Decimal.isDigit_of_mem_digits (n := n) ?_) rfl
    rw [hdigits]
    exact List.mem_cons_self
  have hread := Word.magnitude?_digits n
  rw [hdigits] at hread ⊢
  unfold Word.natural?
  split
  · next heq => exact absurd (List.cons.inj heq).1 hc
  · exact hread

theorem Word.integer?_ofInt (n : Int) : Word.integer? (Decimal.ofInt n) = some n := by
  rw [Decimal.ofInt]
  split
  · rw [Word.integer?, Word.magnitude?_digits]
    show some (-(n.natAbs : Int)) = some n
    exact congrArg some (by omega)
  · obtain ⟨c, rest, hdigits, -⟩ := Decimal.digits_eq_cons n.natAbs
    have hc : c ≠ '-' := by
      refine ne_of_isDigit (Decimal.isDigit_of_mem_digits (n := n.natAbs) ?_) rfl
      rw [hdigits]
      exact List.mem_cons_self
    have hread := Word.natural?_digits n.natAbs
    rw [hdigits] at hread ⊢
    unfold Word.integer?
    split
    · next heq => exact absurd (List.cons.inj heq).1 hc
    · rw [hread]
      show some (n.natAbs : Int) = some n
      exact congrArg some (by omega)

/-- Text that is written plain does not spell nothing. -/
theorem Word.not_null_of_untyped {text : List Char} (h : Word.isTyped text = false) :
    (text.isEmpty || Word.isNull text) = false := by
  simp only [Word.isTyped, Bool.or_eq_false_iff] at h
  rw [h.1.1.1.1.1, h.1.1.1.1.2]
  rfl

/-- A number does not spell nothing. -/
theorem Word.not_null_ofInt (n : Int) :
    ((Decimal.ofInt n).isEmpty || Word.isNull (Decimal.ofInt n)) = false := by
  have hhead : ∃ c rest, Decimal.ofInt n = c :: rest ∧ c ≠ 'n' ∧ c ≠ 'N' ∧ c ≠ '~' := by
    rw [Decimal.ofInt]
    split
    · exact ⟨_, _, rfl, by decide, by decide, by decide⟩
    · obtain ⟨c, rest, hdigits, -⟩ := Decimal.digits_eq_cons n.natAbs
      have hdigit : Decimal.isDigit c = true :=
        Decimal.isDigit_of_mem_digits (n := n.natAbs) (hdigits ▸ List.mem_cons_self)
      exact ⟨c, rest, hdigits, ne_of_isDigit hdigit rfl, ne_of_isDigit hdigit rfl,
        ne_of_isDigit hdigit rfl⟩
  obtain ⟨c, rest, hcons, hn, hN, htilde⟩ := hhead
  simp [hcons, Word.isNull, hn.symm, hN.symm, htilde.symm]

/-! ## Cursors -/

/-- A place of a document where data is. -/
def Stands (d : Data) (c : Cursor) : Prop := ∃ root, c = Cursor.ofData root d

theorem natural?_ofData (root : Node) (n : Nat) :
    Source.natural? (Cursor.ofData root (.int n)) = some n := Word.natural?_digits n

theorem flag?_ofData (root : Node) (b : Bool) :
    Source.flag? (Cursor.ofData root (.bool b)) = some b := by
  show Word.flag? (flagWord b) = some b
  cases b with
  | true => decide
  | false => decide

/-- A scalar that is not plain is a value. -/
theorem optional?_scalar {style : Style} {text : List Char}
    (h : style = .plain → (text.isEmpty || Word.isNull text) = false) (root : Node) :
    Source.optional? (⟨root, .scalar none none style text⟩ : Cursor) =
      some (some ⟨root, .scalar none none style text⟩) := by
  cases style with
  | plain =>
      show (if text.isEmpty || Word.isNull text then _ else _) = _
      rw [h rfl, if_neg Bool.false_ne_true]
  | single => rfl
  | double => rfl
  | literal => rfl
  | folded => rfl

/-- **NOTHING AND SOMETHING**: only nothing is taken for nothing, also no text. -/
theorem optional?_ofData (root : Node) {d : Data} (h : d ≠ .null) :
    Source.optional? (Cursor.ofData root d) = some (some (Cursor.ofData root d)) := by
  cases d with
  | null => exact absurd rfl h
  | bool b =>
      refine optional?_scalar (fun _ => ?_) root
      cases b with
      | true => decide
      | false => decide
  | int n => exact optional?_scalar (fun _ => Word.not_null_ofInt n) root
  | str s =>
      refine optional?_scalar (fun hplain => ?_) root
      have hfits := Style.fits_ofText s.toList
      rw [hplain] at hfits
      cases hfits with
      | plain _ huntyped => exact Word.not_null_of_untyped huntyped
  | list items => rfl
  | record members => rfl

theorem items?_ofData (root : Node) (items : List Data) :
    Source.items? (Cursor.ofData root (.list items)) = some (items.map (Cursor.ofData root)) := by
  show some ((Node.ofItems items).map (Cursor.move _)) = _
  rw [Node.ofItems_eq_map, List.map_map]
  rfl

theorem mapM_map {β γ δ : Type} {f : β → Option δ} {g : γ → β} {k : γ → δ}
    (h : ∀ c, f (g c) = some (k c)) (l : List γ) : (l.map g).mapM f = some (l.map k) := by
  induction l with
  | nil => rfl
  | cons c l ih =>
      rw [List.map_cons, List.mapM_cons, h, ih]
      rfl

/-- The entries of a record, each key with the place of its value. -/
theorem entries?_ofData (root : Node) (members : List (String × Data)) :
    Source.entries? (Cursor.ofData root (.record members)) =
      some (members.map fun e => (e.1, Cursor.ofData root e.2)) := by
  show (Node.ofEntries members).mapM _ = _
  rw [Node.ofEntries_eq_map]
  refine mapM_map (fun e => ?_) members
  show (some (String.ofList e.1.toList)).map _ = _
  rw [String.ofList_toList]
  rfl

/-- The fields of a record, none of which is given twice. -/
theorem fields?_ofData {members : List (String × Data)} (h : (members.map Prod.fst).Nodup)
    (root : Node) (names : List String) :
    Source.fields? names (Cursor.ofData root (.record members)) =
      some (.named (members.map fun e => (e.1, Cursor.ofData root e.2))) := by
  have hkeys : ((members.map fun e => (e.1, Cursor.ofData root e.2)).map Prod.fst).Nodup := by
    rwa [List.map_map]
  have honce : (names.all fun name => ((members.map fun e => (e.1, Cursor.ofData root e.2)).filter
      (·.1 == name)).length ≤ 1) = true :=
    List.all_eq_true.mpr fun name _ => decide_eq_true (length_filter_key hkeys name)
  show (Source.entries? (Cursor.ofData root (.record members))).bind _ = _
  rw [entries?_ofData, Option.bind_some]
  exact if_pos honce

/-- **CURSORS**: a place of a document answers every question as the data there would. -/
theorem faithful : Faithful Stands where
  text := by
    rintro s _ ⟨root, rfl⟩
    show some (String.ofList s.toList) = some s
    rw [String.ofList_toList]
  named := by
    rintro s _ ⟨root, rfl⟩
    show some (String.ofList s.toList) = some s
    rw [String.ofList_toList]
  natural := by
    rintro n _ ⟨root, rfl⟩
    exact natural?_ofData root n
  integer := by
    rintro n _ ⟨root, rfl⟩
    exact Word.integer?_ofInt n
  flag := by
    rintro b _ ⟨root, rfl⟩
    exact flag?_ofData root b
  absent := by
    rintro _ ⟨root, rfl⟩
    rfl
  present := by
    rintro d _ ⟨root, rfl⟩ h
    exact optional?_ofData root h
  items := by
    rintro items _ ⟨root, rfl⟩
    refine ⟨_, items?_ofData root items, ?_⟩
    exact List.forall₂_map_right_iff.mpr (List.forall₂_same.mpr fun d _ => ⟨root, rfl⟩)
  entries := by
    rintro members _ ⟨root, rfl⟩
    exact ⟨_, entries?_ofData root members, .of_map fun _ _ => ⟨root, rfl⟩⟩
  fields := by
    rintro members _ ⟨root, rfl⟩ hkeys names
    exact ⟨_, fields?_ofData hkeys root names, .of_map fun _ _ => ⟨root, rfl⟩⟩

/-- What is read back from every faithful source is read back from a document. -/
theorem ReadsBack.of_restores {α : Type} [ToData α] [Readable α] (h : Restores Stands α) :
    ReadsBack α := fun root a => h a _ ⟨root, rfl⟩

/-! ## Documents -/

/-- **DOCUMENTS**: the text of a value is read as the value. -/
theorem decode_layout {α : Type} [ToData α] [Readable α] (h : ReadsBack α) (a : α) : decode (layout (toData a)) = some a := by
  rw [decode, glyphs_layout]
  show (tokens (place 0 0 (layout (toData a)))).bind _ = _
  rw [tokens_layout, Option.bind_some, Node.ofTokens_words]
  exact h _ a

end Yaml

/-- Every part of a cluster is read back, and so is the cluster. -/
theorem Cluster.readsBack : Yaml.ReadsBack Cluster := .of_restores (Cluster.restores Yaml.faithful)

end Lapse
