/-
# What a TOML document keeps

A document only grows: no statement takes a text away that an earlier one has put into a table.
Hence a text that stands at a path of the root table stands there to the end, whatever the
rest of the document is.
-/
import LlmCtl.TomlReader

namespace Toml

/-! ## Paths -/

/-- One step into a value: to the value of a key, or to a table of an array of tables. -/
inductive Sel where
  | key (k : List Char)
  | index (n : ℕ)

/-- The value at a path. -/
def get : List Sel → Value → Option Value
  | [], v => some v
  | .key k :: p, .table _ es => (find? es k).bind (get p)
  | .index n :: p, .tables ts => ts[n]?.bind (get p)
  | _ :: _, _ => none

/-- Every text of a value stands at the same path of the other. -/
def Keeps (v v' : Value) : Prop := ∀ p s, get p v = some (.str s) → get p v' = some (.str s)

theorem Keeps.refl (v : Value) : Keeps v v := fun _ _ h => h

theorem Keeps.trans {v₁ v₂ v₃ : Value} (h : Keeps v₁ v₂) (h' : Keeps v₂ v₃) : Keeps v₁ v₃ :=
  fun p s hs => h' p s (h p s hs)

/-- Every text of a table stands at the same path of the other. -/
def KeepsIn (es es' : Entries) : Prop :=
  ∀ k v, find? es k = some v → ∃ v', find? es' k = some v' ∧ Keeps v v'

theorem KeepsIn.refl (es : Entries) : KeepsIn es es := fun _ v h => ⟨v, h, .refl v⟩

theorem KeepsIn.trans {es₁ es₂ es₃ : Entries} (h : KeepsIn es₁ es₂) (h' : KeepsIn es₂ es₃) :
    KeepsIn es₁ es₃ := by
  intro k v hv
  obtain ⟨v₂, hv₂, hk⟩ := h k v hv
  obtain ⟨v₃, hv₃, hk'⟩ := h' k v₂ hv₂
  exact ⟨v₃, hv₃, hk.trans hk'⟩

theorem keeps_table {es es' : Entries} (kind kind' : TableKind) (h : KeepsIn es es') :
    Keeps (.table kind es) (.table kind' es') := by
  rintro (_ | ⟨k | n, p⟩) s hs
  · exact absurd hs (by simp [get])
  · obtain ⟨v, hv, hp⟩ := Option.bind_eq_some_iff.mp hs
    obtain ⟨v', hv', hk⟩ := h k v hv
    exact Option.bind_eq_some_iff.mpr ⟨v', hv', hk p s hp⟩
  · exact absurd hs (by simp [get])

theorem keeps_tables {ts ts' : List Value}
    (h : ∀ (n : ℕ) (t : Value), ts[n]? = some t → ∃ t', ts'[n]? = some t' ∧ Keeps t t') :
    Keeps (.tables ts) (.tables ts') := by
  rintro (_ | ⟨k | n, p⟩) s hs
  · exact absurd hs (by simp [get])
  · exact absurd hs (by simp [get])
  · obtain ⟨t, ht, hp⟩ := Option.bind_eq_some_iff.mp hs
    obtain ⟨t', ht', hk⟩ := h n t ht
    exact Option.bind_eq_some_iff.mpr ⟨t', ht', hk p s hp⟩

/-! ## Changes of a table -/

theorem keepsIn_append (es : Entries) (k : List Char) (v : Value) :
    KeepsIn es (es ++ [(k, v)]) := by
  intro k' v' hv
  refine ⟨v', ?_, .refl v'⟩
  rw [find?_append_single, hv, Option.some_or]

theorem keepsIn_replace {es : Entries} {k : List Char} {v v' : Value} (hk : find? es k = some v)
    (h : Keeps v v') : KeepsIn es (replace es k v') := by
  intro k' w hw
  by_cases hkk : k = k'
  · subst hkk
    rw [hk] at hw
    cases hw
    exact ⟨v', find?_replace_self hk, h⟩
  · exact ⟨w, by rw [find?_replace_other hkk, hw], .refl w⟩

/-- An array of tables with another last table. -/
theorem keeps_last {ts : List Value} {t t' : Value} (ht : ts.getLast? = some t)
    (h : Keeps t t') : Keeps (.tables ts) (.tables (ts.dropLast ++ [t'])) := by
  have hts : ts.dropLast ++ [t] = ts := List.dropLast_append_getLast? t ht
  apply keeps_tables
  intro n u hu
  by_cases hn : n < ts.dropLast.length
  · refine ⟨u, ?_, .refl u⟩
    rw [← hts, List.getElem?_append_left hn] at hu
    rw [List.getElem?_append_left hn, hu]
  · have hlen : n = ts.dropLast.length := by
      have hlt : n < (ts.dropLast ++ [t]).length := by
        rw [hts]
        exact (List.getElem?_eq_some_iff.mp hu).1
      rw [List.length_append, List.length_singleton] at hlt
      omega
    rw [← hts, hlen, List.getElem?_concat_length] at hu
    cases hu
    exact ⟨t', by rw [hlen, List.getElem?_concat_length], h⟩

/-- An array of tables with one more table. -/
theorem keeps_push (ts : List Value) (t : Value) : Keeps (.tables ts) (.tables (ts ++ [t])) := by
  apply keeps_tables
  intro n u hu
  have hn : n < ts.length := (List.getElem?_eq_some_iff.mp hu).1
  exact ⟨u, by rw [List.getElem?_append_left hn, hu], .refl u⟩

/-! ## Statements -/

theorem defineTable_keeps {k : List Char} {es es' : Entries} (h : defineTable k es = some es') :
    KeepsIn es es' := by
  unfold defineTable at h
  split at h
  · cases h
    exact keepsIn_append es k _
  · next sub hfind =>
    cases h
    exact keepsIn_replace hfind (keeps_table _ _ (.refl sub))
  · cases h

theorem defineElement_keeps {k : List Char} {es es' : Entries}
    (h : defineElement k es = some es') : KeepsIn es es' := by
  unfold defineElement at h
  split at h
  · cases h
    exact keepsIn_append es k _
  · next ts hfind =>
    cases h
    exact keepsIn_replace hfind (keeps_push ts _)
  · cases h

theorem insert_keeps {v : Value} {key : List (List Char)} {es es' : Entries}
    (h : insert v key es = some es') : KeepsIn es es' := by
  induction key generalizing es es' with
  | nil => exact absurd h (by simp [insert])
  | cons k ks ih =>
    cases ks with
    | nil =>
      rw [insert] at h
      split at h
      · cases h
        exact keepsIn_append es k v
      · cases h
    | cons k' ks =>
      rw [insert] at h
      split at h
      · obtain ⟨sub, -, rfl⟩ := Option.map_eq_some_iff.mp h
        exact keepsIn_append es k _
      · next sub hfind =>
        obtain ⟨sub', hsub, rfl⟩ := Option.map_eq_some_iff.mp h
        exact keepsIn_replace hfind (keeps_table _ _ (ih hsub))
      · cases h
      · exact fun hnil => absurd hnil (List.cons_ne_nil _ _)

theorem enter_keeps {edit : Entries → Option Entries}
    (hedit : ∀ es es', edit es = some es' → KeepsIn es es') {path : List (List Char)}
    {es es' : Entries} (h : enter edit path es = some es') : KeepsIn es es' := by
  induction path generalizing es es' with
  | nil => exact hedit es es' h
  | cons k ks ih =>
    rw [enter] at h
    split at h
    · obtain ⟨sub, -, rfl⟩ := Option.map_eq_some_iff.mp h
      exact keepsIn_append es k _
    · next kind sub hfind =>
      split at h
      · cases h
      · obtain ⟨sub', hsub, rfl⟩ := Option.map_eq_some_iff.mp h
        exact keepsIn_replace hfind (keeps_table _ _ (ih hsub))
    · next ts hfind =>
      split at h
      · next kind sub hlast =>
        obtain ⟨sub', hsub, rfl⟩ := Option.map_eq_some_iff.mp h
        exact keepsIn_replace hfind (keeps_last hlast (keeps_table _ _ (ih hsub)))
      · cases h
    · cases h

namespace Doc

theorem header_keeps {d d' : Doc} {key : List (List Char)} (h : d.header key = some d') :
    KeepsIn d.root d'.root := by
  unfold header at h
  split at h
  · obtain ⟨root, hroot, rfl⟩ := Option.map_eq_some_iff.mp h
    exact enter_keeps (fun _ _ => defineTable_keeps) hroot
  · cases h

theorem element_keeps {d d' : Doc} {key : List (List Char)} (h : d.element key = some d') :
    KeepsIn d.root d'.root := by
  unfold element at h
  split at h
  · obtain ⟨root, hroot, rfl⟩ := Option.map_eq_some_iff.mp h
    exact enter_keeps (fun _ _ => defineElement_keeps) hroot
  · cases h

theorem keyval_keeps {d d' : Doc} {key : List (List Char)} {v : Value}
    (h : d.keyval key v = some d') : KeepsIn d.root d'.root := by
  obtain ⟨root, hroot, rfl⟩ := Option.map_eq_some_iff.mp h
  exact enter_keeps (fun _ _ => insert_keeps) hroot

end Doc

/-! ## Characters -/

/-- Every reader that may come out has a document that keeps that of `d`. -/
def Grows (d : Doc) (o : Option State) : Prop := ∀ s, o = some s → KeepsIn d.root s.doc.root

theorem grows_none (d : Doc) : Grows d none := fun _ h => absurd h (by simp)

theorem grows_some (d : Doc) (mode : Mode) : Grows d (some ⟨d, mode⟩) := by
  rintro s ⟨⟩
  exact .refl d.root

theorem grows_self {s : State} : Grows s.doc (some s) := grows_some s.doc s.mode

theorem grows_ite {d : Doc} {p : Prop} [Decidable p] {a b : Option State} (ha : Grows d a)
    (hb : Grows d b) : Grows d (if p then a else b) := by
  split
  · exact ha
  · exact hb

theorem grows_map {d : Doc} {o : Option Doc} (mode : Mode)
    (h : ∀ d', o = some d' → KeepsIn d.root d'.root) : Grows d (o.map fun d' => ⟨d', mode⟩) := by
  intro s hs
  obtain ⟨d', hd, rfl⟩ := Option.map_eq_some_iff.mp hs
  exact h d' hd

theorem onLineEnd_grows (d : Doc) (c : Char) : Grows d (onLineEnd d c) :=
  grows_ite (grows_some d _) <| grows_ite (grows_some d _) <| grows_ite (grows_some d _) <|
    grows_ite (grows_some d _) (grows_none d)

theorem endValue_grows (d : Doc) (p : Place) (v : Value) : Grows d (endValue d p v) := by
  unfold endValue
  split
  · exact grows_map _ fun _ => Doc.keyval_keeps
  · exact grows_some d _
  · intro s hs
    obtain ⟨es, -, rfl⟩ := Option.map_eq_some_iff.mp hs
    exact .refl d.root

theorem onValueEnd_grows (d : Doc) (p : Place) (c : Char) : Grows d (onValueEnd d p c) := by
  unfold onValueEnd
  split
  · exact grows_ite (grows_some d _) <| grows_ite (grows_some d _) <|
      grows_ite (grows_some d _) <| grows_ite (grows_some d _) <|
      grows_ite (endValue_grows d _ _) (grows_none d)
  · exact grows_ite (grows_some d _) <| grows_ite (grows_some d _) <|
      grows_ite (endValue_grows d _ _) (grows_none d)
  · exact grows_none d

theorem onEnded_grows (s : State) (c : Char) : Grows s.doc (onEnded s c) := by
  unfold onEnded
  split
  · exact onLineEnd_grows s.doc c
  · exact onValueEnd_grows s.doc _ c
  · exact grows_none s.doc

theorem endBefore_grows (d : Doc) (p : Place) (v : Option Value) (c : Char) :
    Grows d (endBefore d p v c) := by
  intro s hs
  obtain ⟨s₁, hs₁, hs⟩ := Option.bind_eq_some_iff.mp hs
  obtain ⟨v', -, hs₁⟩ := Option.bind_eq_some_iff.mp hs₁
  exact (endValue_grows d p v' s₁ hs₁).trans (onEnded_grows s₁ c s hs)

theorem onKeyEnd_grows (d : Doc) (u : KeyUse) (parts : List (List Char)) (c : Char) :
    Grows d (onKeyEnd d u parts c) := by
  refine grows_ite (grows_some d _) <| grows_ite (grows_some d _) ?_
  cases u with
  | header => exact grows_ite (grows_map _ fun _ => Doc.header_keeps) (grows_none d)
  | element | keyval | inline => exact grows_ite (grows_some d _) (grows_none d)

theorem onKeyStart_grows (d : Doc) (u : KeyUse) (parts : List (List Char)) (c : Char) :
    Grows d (onKeyStart d u parts c) :=
  grows_ite (grows_some d _) <| grows_ite (grows_some d _) <| grows_ite (grows_some d _) <|
    grows_ite (grows_some d _) (grows_none d)

theorem endString_grows (d : Doc) (u : StringUse) (buf : List Char) (q : Char) :
    Grows d (endString d u buf q) := by
  cases u with
  | key | lines => exact grows_some d _
  | value p => exact endValue_grows d p _

theorem onBreak_grows (d : Doc) (u : StringUse) (q : Char) (buf : List Char) (c : Char)
    (on : List Char → Mode) : Grows d (onBreak d u q buf c on) := by
  cases u with
  | lines p => exact grows_ite (grows_some d _) <| grows_ite (grows_some d _) (grows_none d)
  | key | value => exact grows_none d

theorem onBasic_grows (d : Doc) (u : StringUse) (buf : List Char) (c : Char) :
    Grows d (onBasic d u buf c) :=
  grows_ite (endString_grows d u buf c) <| grows_ite (grows_some d _) <|
    grows_ite (grows_some d _) (onBreak_grows d u _ buf c _)

theorem onLiteral_grows (d : Doc) (u : StringUse) (buf : List Char) (c : Char) :
    Grows d (onLiteral d u buf c) :=
  grows_ite (endString_grows d u buf c) <| grows_ite (grows_some d _) (onBreak_grows d u _ buf c _)

theorem onString_grows (d : Doc) (u : StringUse) (q : Char) (buf : List Char) (c : Char) :
    Grows d (onString d u q buf c) :=
  grows_ite (onBasic_grows d u buf c) (onLiteral_grows d u buf c)

theorem onEscape_grows (d : Doc) (u : StringUse) (buf : List Char) (c : Char) :
    Grows d (onEscape d u buf c) := by
  unfold onEscape
  split
  · exact grows_some d _
  · refine grows_ite (grows_some d _) <| grows_ite (grows_some d _) ?_
    cases u with
    | lines p =>
      exact grows_ite (grows_some d _) <| grows_ite (grows_some d _) <|
        grows_ite (grows_some d _) (grows_none d)
    | key | value => exact grows_none d

theorem onUnicode_grows (d : Doc) (u : StringUse) (buf : List Char) (left n : ℕ) (c : Char) :
    Grows d (onUnicode d u buf left n c) :=
  grows_ite (grows_ite (grows_ite (grows_some d _) (grows_none d)) (grows_some d _)) (grows_none d)

theorem onValueStart_grows (d : Doc) (p : Place) (c : Char) : Grows d (onValueStart d p c) := by
  refine grows_ite (grows_some d _) <| grows_ite (grows_some d _) <| grows_ite (grows_some d _) <|
    grows_ite (grows_some d _) <| grows_ite (grows_some d _) ?_
  split
  · exact grows_ite (grows_some d _) <| grows_ite (grows_some d _) <|
      grows_ite (grows_some d _) <| grows_ite (endValue_grows d _ _) (grows_none d)
  · exact grows_none d

/-- **A character keeps what the document has.** -/
theorem step_grows (s : State) (c : Char) : Grows s.doc (step s c) := by
  obtain ⟨d, mode⟩ := s
  cases mode with
  | lineStart =>
    exact grows_ite grows_self <| grows_ite (grows_some d _) <| grows_ite (grows_some d _) <|
      grows_ite (grows_some d _) (onKeyStart_grows d _ _ c)
  | lineEnd => exact onLineEnd_grows d c
  | comment =>
    exact grows_ite (grows_some d _) <| grows_ite (grows_some d _) <|
      grows_ite grows_self (grows_none d)
  | lineReturn => exact grows_ite (grows_some d _) (grows_none d)
  | headerOpen => exact grows_ite (grows_some d _) (onKeyStart_grows d _ _ c)
  | elementClose key => exact grows_ite (grows_map _ fun _ => Doc.element_keeps) (grows_none d)
  | keyStart u parts => exact onKeyStart_grows d u parts c
  | bareKey u parts buf => exact grows_ite (grows_some d _) (onKeyEnd_grows d u _ c)
  | keyEnd u parts => exact onKeyEnd_grows d u parts c
  | inlineOpen p =>
    exact grows_ite grows_self <| grows_ite (endValue_grows d p _) (onKeyStart_grows d _ _ c)
  | valueStart p => exact onValueStart_grows d p c
  | valueEnd p => exact onValueEnd_grows d p c
  | arrayComment p ended =>
    exact grows_ite (grows_some d _) <| grows_ite (grows_some d _) <|
      grows_ite grows_self (grows_none d)
  | arrayReturn p ended => exact grows_ite (grows_some d _) (grows_none d)
  | scalar p buf =>
    exact grows_ite (grows_some d _) <| grows_ite (grows_some d _) (endBefore_grows d p _ c)
  | dateSpace p buf => exact grows_ite (grows_some d _) (endBefore_grows d p _ c)
  | quote p q two =>
    exact grows_ite (grows_ite (grows_some d _) (endBefore_grows d p _ c)) <|
      grows_ite (grows_some d _) (onString_grows d _ q _ c)
  | quotes p q =>
    exact grows_ite (grows_some d _) <| grows_ite (grows_some d _) (onString_grows d _ q _ c)
  | basic u buf => exact onBasic_grows d u buf c
  | literal u buf => exact onLiteral_grows d u buf c
  | escape u buf => exact onEscape_grows d u buf c
  | unicode u buf left n => exact onUnicode_grows d u buf left n c
  | trim p buf fed =>
    exact grows_ite grows_self <| grows_ite (grows_some d _) <| grows_ite (grows_some d _) <|
      grows_ite (onBasic_grows d _ buf c) (grows_none d)
  | trimReturn p buf => exact grows_ite (grows_some d _) (grows_none d)
  | stringReturn p q buf first => exact grows_ite (grows_some d _) (grows_none d)
  | quotesEnd p q buf n =>
    exact grows_ite (grows_ite (grows_some d _) (grows_none d)) <|
      grows_ite (endBefore_grows d p _ c) (onString_grows d _ q _ c)

/-- **So does a text.** -/
theorem read_grows (s : State) (text : List Char) : Grows s.doc (read s text) := by
  induction text generalizing s with
  | nil => exact grows_self
  | cons c text ih =>
    intro s' hs
    obtain ⟨s₁, hs₁, hs⟩ := Option.bind_eq_some_iff.mp hs
    exact (step_grows s c s₁ hs₁).trans (ih s₁ s' hs)

/-- **A document keeps what it has**, whatever it goes on with. -/
theorem complete_keeps {s : State} {text : List Char} {d : Doc} (h : complete s text = some d) :
    KeepsIn s.doc.root d.root := by
  obtain ⟨s₁, hs₁, hfin⟩ := Option.bind_eq_some_iff.mp h
  unfold finish at hfin
  split at hfin
  · cases hfin
  · obtain ⟨s', hs, hfin⟩ := Option.bind_eq_some_iff.mp hfin
    split at hfin
    · cases hfin
      exact (read_grows s text s₁ hs₁).trans (step_grows s₁ _ s' hs)
    · cases hfin

end Toml
