/-
  BridgeCall/Proofs/Host/Lexemes.lean
  ===================================
  **Where the lexemes of a host file stand.**  Each lexeme that has bytes is what the lexer
  finds at its offset, and no two of them overlap (`Lexer.apart_of_kind_ne`).  A string
  literal is a quote, a body and the quote again, with no mark inside
  (`exists_string`).
-/
import BridgeCall.Proofs.Host.Places

namespace BridgeCall.Host

namespace Lexer

/-- What the lexer finds at an offset of a text. -/
def foundAt (text : Bytes) (i : Nat) : Found := (comment? (text.drop i)).getD (found (text.drop i))

/-- The offset behind what the lexer finds at offset `i`. -/
def stopAt (text : Bytes) (i : Nat) : Nat := i + max 1 (foundAt text i).size

def lexemeAt (text : Bytes) (i : Nat) : Lexeme :=
  let f := foundAt text i
  ⟨i + 1, f.kind, f.text, f.faults.map (· + i)⟩

/-- Semicolons may stand for line ends, and no bytes are left at the end. -/
def hasBytes (l : Lexeme) : Bool := l.kind ≠ .op ";" && l.kind ≠ .eof

/-- Some lexemes as they are found in a text, one behind the other from offset `i` on. -/
inductive Laid (text : Bytes) : Nat → List Lexeme → Prop
  | nil {i : Nat} : Laid text i []
  | cons {i j : Nat} {ls : List Lexeme} (hij : i ≤ j) (tail : Laid text (stopAt text j) ls) :
      Laid text i (lexemeAt text j :: ls)

variable {text : Bytes}

theorem Laid.mono {i j : Nat} {ls : List Lexeme} (h : Laid text j ls) (hij : i ≤ j) :
    Laid text i ls := by
  cases h with
  | nil => exact .nil
  | cons hle tail => exact .cons (Nat.le_trans hij hle) tail

theorem filter_semicolons (semi : Bool) (p : Pos) :
    (if semi then [(⟨p, .op ";", [0x0a], []⟩ : Lexeme)] else []).filter hasBytes = [] := by
  cases semi <;> rfl

theorem Laid.filter_cons {i : Nat} {ls : List Lexeme}
    (tail : Laid text (stopAt text i) (ls.filter hasBytes)) :
    Laid text i ((lexemeAt text i :: ls).filter hasBytes) := by
  rw [List.filter_cons]
  split
  · exact .cons (Nat.le_refl i) tail
  · exact tail.mono (Nat.le_add_right i _)

theorem kind_of_comment? {bs : Bytes} {f : Found} (h : comment? bs = some f) : f.kind = .comment := by
  unfold comment? at h
  split at h
  · cases h
    rfl
  · cases h
    rfl
  · cases h

theorem foundAt_comment {i : Nat} {f : Found} (h : comment? (text.drop i) = some f) :
    foundAt text i = f := by
  rw [foundAt, h, Option.getD_some]

theorem foundAt_found {i : Nat} (h : comment? (text.drop i) = none) :
    foundAt text i = found (text.drop i) := by
  rw [foundAt, h, Option.getD_none]

theorem lexemeAt_comment {i : Nat} {f : Found} (h : comment? (text.drop i) = some f) :
    lexemeAt text i = ⟨i + 1, .comment, f.text, f.faults.map (· + i)⟩ := by
  rw [lexemeAt, foundAt_comment h, kind_of_comment? h]

/-- The lexemes of a text stand one behind the other, each as it is found where it stands. -/
theorem laid_lexemesFrom {i : Nat} {semi : Bool} {bs : Bytes} (h : text.drop i = bs) :
    Laid text i ((lexemesFrom i semi bs).filter hasBytes) := by
  fun_induction lexemesFrom i semi bs with
  | case1 i semi =>
    rw [List.filter_append, filter_semicolons]
    exact .nil
  | case2 i semi rest ih =>
    rw [List.filter_append, filter_semicolons, List.nil_append]
    exact (ih (by rw [← List.drop_drop, h]; rfl)).mono (Nat.le_succ i)
  | case3 i semi b rest hbreak hblank ih =>
    exact (ih (by rw [← List.drop_drop, h]; rfl)).mono (Nat.le_succ i)
  | case4 i semi b rest hbreak hblank f hf n whole lex j hj ih =>
    rw [← h] at hf
    have hstop : stopAt text i = i + n := by rw [stopAt, foundAt_comment hf]
    rw [show lex = lexemeAt text i from (lexemeAt_comment hf).symm]
    refine @Laid.filter_cons _ _ (_ :: _) ?_
    rw [hstop]
    exact ih (by rw [← List.drop_drop, h])
  | case5 i semi b rest hbreak hblank f hf n whole lex hj ih =>
    rw [← h] at hf
    have hstop : stopAt text i = i + n := by rw [stopAt, foundAt_comment hf]
    rw [show lex = lexemeAt text i from (lexemeAt_comment hf).symm]
    refine Laid.filter_cons ?_
    rw [hstop]
    exact ih (by rw [← List.drop_drop, h])
  | case6 i semi b rest hbreak hblank hf f n ih =>
    rw [← h] at hf
    have hfound : foundAt text i = f := by rw [foundAt_found hf, h]
    have hstop : stopAt text i = i + n := by rw [stopAt, hfound]
    have hlexeme : lexemeAt text i = ⟨i + 1, f.kind, f.text, f.faults.map (· + i)⟩ := by
      rw [lexemeAt, hfound]
    rw [← hlexeme]
    refine Laid.filter_cons ?_
    rw [hstop]
    exact ih (by rw [← List.drop_drop, h])

theorem laid_lexemes (text : Bytes) : Laid text 0 ((lexemes text).filter hasBytes) := by
  unfold lexemes
  split
  · exact (laid_lexemesFrom rfl).mono (Nat.zero_le 3)
  · exact laid_lexemesFrom rfl

theorem lexemeAt_inj {j k : Nat} (h : lexemeAt text j = lexemeAt text k) : j = k :=
  Nat.succ.inj (congrArg Lexeme.pos h)

theorem lt_stopAt (text : Bytes) (i : Nat) : i < stopAt text i := by
  unfold stopAt
  omega

theorem Laid.exists_offset {i : Nat} {ls : List Lexeme} (h : Laid text i ls) :
    ∀ l ∈ ls, ∃ j, i ≤ j ∧ l = lexemeAt text j := by
  induction h with
  | nil => simp
  | @cons i j ls hij tail ih =>
    intro l hl
    rcases List.mem_cons.mp hl with rfl | hl
    · exact ⟨j, hij, rfl⟩
    · obtain ⟨k, hk, rfl⟩ := ih l hl
      have hstop := lt_stopAt text j
      exact ⟨k, by omega, rfl⟩

/-- Of two lexemes, one stops before the other starts. -/
theorem Laid.apart {i : Nat} {ls : List Lexeme} (h : Laid text i ls) {j k : Nat}
    (hj : lexemeAt text j ∈ ls) (hk : lexemeAt text k ∈ ls) (hne : j ≠ k) :
    stopAt text j ≤ k ∨ stopAt text k ≤ j := by
  have hbehind {i n : Nat} {ls : List Lexeme} (h : Laid text i ls) (hn : lexemeAt text n ∈ ls) :
      i ≤ n := by
    obtain ⟨n', hle, heq⟩ := h.exists_offset _ hn
    rwa [lexemeAt_inj heq]
  induction h with
  | nil => cases hj
  | cons hij tail ih =>
    rcases List.mem_cons.mp hj with hjhead | hjtail
    · obtain rfl := lexemeAt_inj hjhead
      rcases List.mem_cons.mp hk with hkhead | hktail
      · exact absurd (lexemeAt_inj hkhead).symm hne
      · exact .inl (hbehind tail hktail)
    · rcases List.mem_cons.mp hk with hkhead | hktail
      · obtain rfl := lexemeAt_inj hkhead
        exact .inr (hbehind tail hjtail)
      · exact ih hjtail hktail

theorem exists_offset {l : Lexeme} (hl : l ∈ lexemes text) (hbytes : hasBytes l = true) :
    ∃ j, l = lexemeAt text j := by
  obtain ⟨j, -, hj⟩ := (laid_lexemes text).exists_offset l (List.mem_filter.mpr ⟨hl, hbytes⟩)
  exact ⟨j, hj⟩

/-- Two lexemes of different kinds do not overlap. -/
theorem apart_of_kind_ne {j k : Nat} (hj : lexemeAt text j ∈ lexemes text)
    (hk : lexemeAt text k ∈ lexemes text) (hjbytes : hasBytes (lexemeAt text j) = true)
    (hkbytes : hasBytes (lexemeAt text k) = true)
    (hne : (lexemeAt text j).kind ≠ (lexemeAt text k).kind) :
    stopAt text j ≤ k ∨ stopAt text k ≤ j := by
  refine (laid_lexemes text).apart (List.mem_filter.mpr ⟨hj, hjbytes⟩)
    (List.mem_filter.mpr ⟨hk, hkbytes⟩) ?_
  rintro rfl
  exact hne rfl

/-- A lexeme ends in front of one of another kind that does not start in front of it. -/
theorem stopAt_lt_pos {i : Nat} {l r : Lexeme} (hl : l ∈ lexemes text) (hr : r ∈ lexemes text)
    (hlbytes : hasBytes l = true) (hrbytes : hasBytes r = true) (hne : l.kind ≠ r.kind)
    (hi : l.pos = i + 1) (hle : l.pos ≤ r.pos) : stopAt text i < r.pos := by
  obtain ⟨j, rfl⟩ := exists_offset hl hlbytes
  obtain ⟨k, rfl⟩ := exists_offset hr hrbytes
  obtain rfl : j = i := Nat.succ.inj hi
  have hle : j ≤ k := Nat.le_of_succ_le_succ hle
  have hlt := lt_stopAt text k
  rcases apart_of_kind_ne hl hr hlbytes hrbytes hne with hbefore | hafter
  · exact Nat.lt_succ_of_le hbefore
  · omega

/-! ### The order of lexemes -/

/-- Lexemes that stand behind an offset in order; semicolons may share their place with the next. -/
def Ordered (i : Nat) (ls : List Lexeme) : Prop :=
  (∀ l ∈ ls, i < l.pos) ∧ ls.Pairwise (·.pos ≤ ·.pos)

theorem Ordered.mono {i j : Nat} {ls : List Lexeme} (h : Ordered j ls) (hij : i ≤ j) : Ordered i ls :=
  ⟨fun l hl => Nat.lt_of_le_of_lt hij (h.1 l hl), h.2⟩

theorem Ordered.cons {i j : Nat} {l : Lexeme} {ls : List Lexeme} (h : Ordered j ls) (hi : i < l.pos)
    (hj : l.pos ≤ j + 1) : Ordered i (l :: ls) := by
  refine ⟨?_, List.pairwise_cons.mpr ⟨fun m hm => Nat.le_trans hj (h.1 m hm), h.2⟩⟩
  intro m hm
  rcases List.mem_cons.mp hm with rfl | hm
  · exact hi
  · exact Nat.lt_of_lt_of_le hi (Nat.le_trans hj (h.1 m hm))

theorem ordered_semicolon {i j : Nat} {ls : List Lexeme} (h : Ordered j ls) (hij : i ≤ j)
    (semi : Bool) : Ordered i ((if semi then [⟨i + 1, .op ";", [0x0a], []⟩] else []) ++ ls) := by
  cases semi with
  | false => exact h.mono hij
  | true => exact h.cons (Nat.lt_succ_self i) (Nat.succ_le_succ hij)

theorem ordered_lexemesFrom (i : Nat) (semi : Bool) (bs : Bytes) :
    Ordered i (lexemesFrom i semi bs) := by
  fun_induction lexemesFrom i semi bs with
  | case1 i semi =>
    have hnil : Ordered i [] := ⟨nofun, List.Pairwise.nil⟩
    exact ordered_semicolon (hnil.cons (Nat.lt_succ_self i) (Nat.le_refl _)) (Nat.le_refl i) semi
  | case2 i semi rest ih => exact ordered_semicolon ih (Nat.le_succ i) semi
  | case3 i semi b rest hbreak hblank ih => exact ih.mono (Nat.le_succ i)
  | case4 i semi b rest hbreak hblank f hf n whole lex j hj ih =>
    have hwithin : j < n := by
      obtain ⟨-, hfirst⟩ := Option.ite_none_right_eq_some.mp hj
      obtain ⟨-, hfirst⟩ := Option.ite_none_right_eq_some.mp hfirst
      have hlt := (List.findIdx?_eq_some_iff_getElem.mp hfirst).1
      exact Nat.lt_of_lt_of_le hlt (List.length_take_le _ _)
    have hinside : Ordered i (⟨i + j + 1, .op ";", [0x0a], []⟩ :: lexemesFrom (i + n) false _) :=
      ih.cons (Nat.lt_succ_of_le (Nat.le_add_right i j)) (Nat.succ_le_succ (Nat.add_le_add_left hwithin.le i))
    exact hinside.cons (Nat.lt_succ_self i) (Nat.le_refl _)
  | case5 i semi b rest hbreak hblank f hf n whole lex hj ih =>
    exact ih.cons (Nat.lt_succ_self i) (Nat.succ_le_succ (Nat.le_add_right i n))
  | case6 i semi b rest hbreak hblank hf f n ih =>
    exact ih.cons (Nat.lt_succ_self i) (Nat.succ_le_succ (Nat.le_add_right i n))

theorem ordered_lexemes (text : Bytes) : Ordered 0 (lexemes text) := by
  unfold lexemes
  split
  · exact (ordered_lexemesFrom 3 false _).mono (Nat.zero_le 3)
  · exact ordered_lexemesFrom 0 false _

/-- What has bytes stands in front of all that follows it. -/
theorem pairwise_lt_lexemesFrom (i : Nat) (semi : Bool) (bs : Bytes) :
    (lexemesFrom i semi bs).Pairwise fun l m => hasBytes l = true → l.pos < m.pos := by
  have hsemicolon (semi : Bool) (p : Pos) {ls : List Lexeme}
      (h : ls.Pairwise fun l m => hasBytes l = true → l.pos < m.pos) :
      ((if semi then [(⟨p, .op ";", [0x0a], []⟩ : Lexeme)] else []) ++ ls).Pairwise
        fun l m => hasBytes l = true → l.pos < m.pos := by
    cases semi with
    | false => exact h
    | true => exact List.pairwise_cons.mpr ⟨nofun, h⟩
  have hbehind (i n : Nat) (semi : Bool) (bs : Bytes) (hn : 1 ≤ n) :
      ∀ m ∈ lexemesFrom (i + n) semi bs, i + 1 < m.pos := by
    intro m hm
    have := (ordered_lexemesFrom (i + n) semi bs).1 m hm
    omega
  fun_induction lexemesFrom i semi bs with
  | case1 i semi => exact hsemicolon semi _ (List.pairwise_singleton _ _)
  | case2 i semi rest ih => exact hsemicolon semi _ ih
  | case3 i semi b rest hbreak hblank ih => exact ih
  | case4 i semi b rest hbreak hblank f hf n whole lex j hj ih =>
    have hlater : 0 < j := by
      obtain ⟨-, hfirst⟩ := Option.ite_none_right_eq_some.mp hj
      obtain ⟨-, hfirst⟩ := Option.ite_none_right_eq_some.mp hfirst
      obtain ⟨hlt, hfeed, -⟩ := List.findIdx?_eq_some_iff_getElem.mp hfirst
      refine Nat.pos_of_ne_zero fun hzero => hbreak ?_
      subst hzero
      rw [List.getElem_take] at hfeed
      exact of_decide_eq_true hfeed
    refine List.pairwise_cons.mpr ⟨?_, List.pairwise_cons.mpr ⟨?_, ih⟩⟩
    · intro m hm _
      rcases List.mem_cons.mp hm with rfl | hm
      · exact Nat.add_lt_add_right (Nat.lt_add_of_pos_right hlater) 1
      · exact hbehind i n _ _ (Nat.le_max_left 1 _) m hm
    · nofun
  | case5 i semi b rest hbreak hblank f hf n whole lex hj ih =>
    exact List.pairwise_cons.mpr ⟨fun m hm _ => hbehind i n _ _ (Nat.le_max_left 1 _) m hm, ih⟩
  | case6 i semi b rest hbreak hblank hf f n ih =>
    exact List.pairwise_cons.mpr ⟨fun m hm _ => hbehind i n _ _ (Nat.le_max_left 1 _) m hm, ih⟩

theorem pairwise_lt_lexemes (text : Bytes) :
    (lexemes text).Pairwise fun l m => hasBytes l = true → l.pos < m.pos := by
  unfold lexemes
  split
  · exact pairwise_lt_lexemesFrom 3 false _
  · exact pairwise_lt_lexemesFrom 0 false _

theorem exists_eof_lexemesFrom (i : Nat) (semi : Bool) (bs : Bytes) :
    ∃ l ∈ lexemesFrom i semi bs, l.kind = .eof := by
  fun_induction lexemesFrom i semi bs with
  | case1 i semi => exact ⟨_, List.mem_append_right _ List.mem_cons_self, rfl⟩
  | case2 i semi rest ih =>
    obtain ⟨l, hl, hkind⟩ := ih
    exact ⟨l, List.mem_append_right _ hl, hkind⟩
  | case3 i semi b rest hbreak hblank ih => exact ih
  | case4 i semi b rest hbreak hblank f hf n whole lex j hj ih =>
    obtain ⟨l, hl, hkind⟩ := ih
    exact ⟨l, List.mem_cons_of_mem _ (List.mem_cons_of_mem _ hl), hkind⟩
  | case5 i semi b rest hbreak hblank f hf n whole lex hj ih =>
    obtain ⟨l, hl, hkind⟩ := ih
    exact ⟨l, List.mem_cons_of_mem _ hl, hkind⟩
  | case6 i semi b rest hbreak hblank hf f n ih =>
    obtain ⟨l, hl, hkind⟩ := ih
    exact ⟨l, List.mem_cons_of_mem _ hl, hkind⟩

theorem exists_eof (text : Bytes) : ∃ l ∈ lexemes text, l.kind = .eof := by
  unfold lexemes
  split
  · exact exists_eof_lexemesFrom 3 false _
  · exact exists_eof_lexemesFrom 0 false _

/-! ### Marks -/

theorem two_le_of_comment? {bs : Bytes} {f : Found} (h : comment? bs = some f) : 2 ≤ f.size := by
  unfold comment? at h
  split at h
  · cases h
    exact Nat.le_add_left 2 _
  · cases h
    exact Nat.le_add_left 2 _
  · cases h

theorem offset_ofBody {i next : Nat} {body : Bytes} {m : LineMark}
    (h : LineMark.ofBody i next body = some (.ok m)) : m.offset = next := by
  unfold LineMark.ofBody at h
  repeat' split at h
  all_goals simp at h
  all_goals rw [← h]

theorem offset_ofComment {i next : Nat} {startsLine : Bool} {bs : Bytes} {m : LineMark}
    (h : LineMark.ofComment i next startsLine bs = some (.ok m)) : m.offset = next := by
  unfold LineMark.ofComment at h
  split at h
  · dsimp only at h
    split at h
    · exact offset_ofBody h
    · cases h
  · exact offset_ofBody h
  · cases h

theorem kind_of_lineMark? {t : Lines} {l : Lexeme} {r : Except Nat LineMark}
    (h : lineMark? text t l = some r) : l.kind = .comment := by
  unfold lineMark? at h
  split at h
  · cases h
  · rename_i hkind
    exact Classical.not_not.mp (not_or.mp hkind).1

/-- A mark names the place behind its comment, or that behind the line feed there. -/
theorem offset_lineMark? {t : Lines} {j : Nat} {m : LineMark}
    (h : lineMark? text t (lexemeAt text j) = some (.ok m)) :
    m.offset = stopAt text j
      ∨ m.offset = stopAt text j + 1 ∧ text[stopAt text j]? = some 0x0a := by
  unfold lineMark? at h
  split at h
  · cases h
  · rw [show (lexemeAt text j).pos - 1 = j from rfl] at h
    dsimp only at h
    split at h
    · cases h
    · rename_i f hf
      have hstop : stopAt text j = j + f.size := by
        rw [stopAt, foundAt_comment hf, Nat.max_eq_right (Nat.le_of_succ_le (two_le_of_comment? hf))]
      rw [hstop]
      split at h
      · cases h
      · rw [offset_ofComment h]
        split
        · rename_i hbreak
          rw [Bool.and_eq_true, decide_eq_true_iff] at hbreak
          refine .inr ⟨rfl, ?_⟩
          have hbreak := hbreak.1
          rw [List.getD_eq_getElem?_getD, List.getElem?_drop] at hbreak
          cases hbyte : text[j + f.size]? with
          | none =>
            rw [hbyte] at hbreak
            cases hbreak
          | some b =>
            rw [hbyte] at hbreak
            exact congrArg some hbreak
        · exact .inl rfl

/-! ### String literals -/

theorem exists_body_of_drop {q : UInt8} {i w stop : Nat} {bs : Bytes}
    (h : ∃ body post, bs.drop w = body ++ q :: post ∧ stop = i + w + body.length + 1) :
    ∃ body post, bs = body ++ q :: post ∧ stop = i + body.length + 1 := by
  obtain ⟨body, post, hdrop, hstop⟩ := h
  have hw : w ≤ bs.length := by
    have hlength := congrArg List.length hdrop
    simp only [List.length_drop, List.length_append, List.length_cons] at hlength
    omega
  refine ⟨bs.take w ++ body, post, ?_, ?_⟩
  · rw [List.append_assoc, ← hdrop, List.take_append_drop]
  · rw [hstop, List.length_append, List.length_take, Nat.min_eq_left hw, Nat.add_assoc i]

/-- A closed body is followed by its quote. -/
theorem exists_body {q : UInt8} {i : Nat} {bs : Bytes} (h : (quotedBody q i bs).closed = true) :
    ∃ body post, bs = body ++ q :: post ∧ (quotedBody q i bs).stop = i + body.length + 1 := by
  fun_induction quotedBody q i bs with
  | case1 => cases h
  | case2 => cases h
  | case3 i rest hbreak => exact ⟨[], rest, rfl, rfl⟩
  | case4 i rest e r hbreak hq ih =>
    obtain ⟨body, post, hdrop, hstop⟩ := ih h
    refine exists_body_of_drop (w := e.1 + 1) ⟨body, post, hdrop, ?_⟩
    rw [← Nat.add_assoc, Nat.add_right_comm i]
    exact hstop
  | case5 i b rest hbreak hq hslash w r ih => exact exists_body_of_drop (ih h)

theorem kind_number (bs : Bytes) : (number bs).1 ≠ .string := by
  have hkind (p q : Prop) [Decidable p] [Decidable q] :
      (if p then LiteralKind.imaginary else if q then .float else .int) ≠ .string := by
    split
    · decide
    · split
      · decide
      · decide
  exact hkind _ _

end Lexer

/-- The bytes of a literal's body that its text keeps: no carriage return between back quotes. -/
def keptBody (q : UInt8) (body : Bytes) : Bytes := if q = 0x60 then body.filter (· ≠ 0x0d) else body

/-- A string literal with the given text starts at a place of a file: a quote, the body, and the quote
    again. No mark renames a place inside of it. -/
structure IsString (file : Bytes) (p : Pos) (text : Bytes) (q : UInt8) (pre body post : Bytes) :
    Prop where
  quote : q = 0x22 ∨ q = 0x60
  file_eq : file = pre ++ q :: (body ++ q :: post)
  pos_eq : p = pre.length + 1
  text_eq : text = q :: (keptBody q body ++ [q])
  unmarked : (Lines.ofFile file).Unmarked pre.length (pre.length + body.length + 1)

namespace Lexer

theorem kind_wordKind (w : Bytes) (k : LiteralKind) : wordKind w ≠ .literal k := by
  unfold wordKind
  split
  · exact Kind.noConfusion
  · exact Kind.noConfusion

theorem eq_cons_of_byteAt {bs : Bytes} {b : UInt8} (h : byteAt bs 0 = b) (hb : b ≠ 0) :
    ∃ rest, bs = b :: rest := by
  cases bs with
  | nil => exact absurd h.symm hb
  | cons a rest => exact ⟨rest, by rw [← h]; rfl⟩

theorem stringLiteral_eq {rest : Bytes} {n : Nat} (h : stringLiteral (0x22 :: rest) = (n, [])) :
    ∃ body post, rest = body ++ 0x22 :: post ∧ n = body.length + 2 := by
  obtain ⟨hstop, hfaults⟩ := Prod.mk.inj h
  have hclosed : (quotedBody 0x22 1 rest).closed = true := by
    cases hopen : (quotedBody 0x22 1 rest).closed with
    | true => rfl
    | false =>
      rw [show (0x22 :: rest).drop 1 = rest from rfl, hopen] at hfaults
      cases hfaults
  obtain ⟨body, post, hrest, hend⟩ := exists_body hclosed
  refine ⟨body, post, hrest, ?_⟩
  rw [← hstop, show (0x22 :: rest).drop 1 = rest from rfl, hend]
  omega

theorem rawLiteral_eq {rest : Bytes} {n : Nat} (h : rawLiteral (0x60 :: rest) = (n, [])) :
    ∃ body post, rest = body ++ 0x60 :: post ∧ n = body.length + 2 := by
  unfold rawLiteral at h
  dsimp only at h
  split at h
  · rename_i hlength
    rw [show (0x60 :: rest).drop 1 = rest from rfl] at h hlength
    have hsplit := List.takeWhile_append_dropWhile (p := (· ≠ 0x60)) (l := rest)
    cases hclose : rest.dropWhile (· ≠ 0x60) with
    | nil =>
      rw [hclose, List.append_nil] at hsplit
      rw [hsplit, List.length_cons] at hlength
      exact absurd hlength (Nat.lt_irrefl _)
    | cons b post =>
      have hb := List.head?_dropWhile_not (· ≠ 0x60) rest
      rw [hclose] at hb
      obtain rfl : b = 0x60 := by simpa using hb
      rw [hclose] at hsplit
      exact ⟨_, post, hsplit.symm, (Prod.mk.inj h).1.symm⟩
  · cases h

theorem take_literal (q : UInt8) (body post : Bytes) :
    (q :: (body ++ q :: post)).take (body.length + 2) = q :: (body ++ [q]) := by
  rw [List.take_succ_cons, List.take_append, List.take_of_length_le (Nat.le_succ _),
    Nat.add_sub_cancel_left]
  rfl

theorem found_string {bs : Bytes} (hkind : (found bs).kind = .literal .string)
    (hfaults : (found bs).faults = []) :
    ∃ q body post, (q = 0x22 ∨ q = 0x60) ∧ bs = q :: (body ++ q :: post)
      ∧ (found bs).text = q :: (keptBody q body ++ [q]) ∧ (found bs).size = body.length + 2 := by
  revert hkind hfaults
  fun_cases found bs with
  | case1 hname w => exact fun hkind => absurd hkind (kind_wordKind w _)
  | case2 hname b hdigit k n fs hnumber =>
    intro hkind
    have hstring := kind_number bs
    rw [hnumber] at hstring
    exact absurd (Kind.literal.inj hkind) hstring
  | case3 hname b hdigit hquote n fs hliteral =>
    rintro - hfaults
    obtain ⟨rest, rfl⟩ := eq_cons_of_byteAt hquote (by decide)
    obtain rfl : fs = [] := hfaults
    obtain ⟨body, post, rfl, rfl⟩ := stringLiteral_eq hliteral
    exact ⟨0x22, body, post, .inl rfl, rfl, take_literal 0x22 body post, rfl⟩
  | case4 hname b hdigit hstring hquote n fs hliteral => exact fun hkind => nomatch hkind
  | case5 hname b hdigit hstring hchar hquote n fs hliteral =>
    rintro - hfaults
    obtain ⟨rest, rfl⟩ := eq_cons_of_byteAt hquote (by decide)
    obtain rfl : fs = [] := hfaults
    obtain ⟨body, post, rfl, rfl⟩ := rawLiteral_eq hliteral
    refine ⟨0x60, body, post, .inr rfl, rfl, ?_, rfl⟩
    dsimp only
    rw [take_literal]
    simp [keptBody]
  | case6 hname b hdigit hstring hchar hraw e he => exact fun hkind => nomatch hkind
  | case7 hname b hdigit hstring hchar hraw hnone n => exact fun hkind => nomatch hkind

/-- A mark stands in a comment, so it names no place inside of a string. -/
theorem unmarked_string {k : Nat} (hk : lexemeAt text k ∈ lexemes text)
    (hstring : (lexemeAt text k).kind = .literal .string) (hbyte : text[k]? ≠ some 0x0a) :
    (Lines.ofFile text).Unmarked k (stopAt text k - 1) := by
  intro m hm
  obtain ⟨l, hl, hmark⟩ := List.mem_filterMap.mp hm
  obtain ⟨r, hline, hmark⟩ := Option.bind_eq_some_iff.mp hmark
  rcases r with i | m'
  · cases hmark
  · obtain rfl : m' = m := by
      dsimp only at hmark
      split at hmark
      · exact Option.some.inj hmark
      · cases hmark
    have hcomment := kind_of_lineMark? hline
    obtain ⟨j, rfl⟩ := exists_offset hl (by simp [hasBytes, hcomment])
    have hoffset := offset_lineMark? hline
    have hstop := lt_stopAt text j
    rcases apart_of_kind_ne hl hk (by simp [hasBytes, hcomment]) (by simp [hasBytes, hstring])
      (by rw [hcomment, hstring]; nofun) with hbefore | hbehind
    · left
      rcases hoffset with hoffset | ⟨hoffset, hbreak⟩
      · omega
      · -- the line feed behind the comment is not the quote
        have hne : stopAt text j ≠ k := by
          intro heq
          rw [heq] at hbreak
          exact hbyte hbreak
        omega
    · right
      rcases hoffset with hoffset | ⟨hoffset, -⟩
      · omega
      · omega

end Lexer

/-- A lexeme of a file that is a string, and has no fault, stands there as one. -/
theorem exists_string {file : Bytes} {l : Lexeme} (hl : l ∈ Lexer.lexemes file)
    (hkind : l.kind = .literal .string) (hfaults : l.faults = []) :
    ∃ q pre body post, IsString file l.pos l.text q pre body post
      ∧ Lexer.stopAt file pre.length = pre.length + body.length + 2 := by
  obtain ⟨k, rfl⟩ := Lexer.exists_offset hl (by simp [Lexer.hasBytes, hkind])
  have hfound : Lexer.foundAt file k = Lexer.found (file.drop k) := by
    cases hcomment : Lexer.comment? (file.drop k) with
    | none => exact Lexer.foundAt_found hcomment
    | some f =>
      rw [Lexer.lexemeAt_comment hcomment] at hkind
      cases hkind
  have hkind' : (Lexer.foundAt file k).kind = .literal .string := hkind
  have hfaults' : (Lexer.foundAt file k).faults = [] := List.map_eq_nil_iff.mp hfaults
  rw [hfound] at hkind' hfaults'
  obtain ⟨q, body, post, hq, hdrop, hliteral, hsize⟩ := Lexer.found_string hkind' hfaults'
  have hstop : Lexer.stopAt file k = k + body.length + 2 := by
    rw [Lexer.stopAt, hfound, hsize]
    omega
  have hbyte : file[k]? = some q := by
    have hhead := congrArg List.head? hdrop
    rw [List.head?_drop] at hhead
    exact hhead
  have hlt : k < file.length := (List.getElem?_eq_some_iff.mp hbyte).1
  have hlength : (file.take k).length = k := by rw [List.length_take, Nat.min_eq_left hlt.le]
  have hunmarked := Lexer.unmarked_string hl hkind (by rcases hq with rfl | rfl <;> simp [hbyte])
  refine ⟨q, file.take k, body, post, ⟨hq, ?_, ?_, ?_, ?_⟩, by rw [hlength, hstop]⟩
  · rw [← hdrop, List.take_append_drop]
  · rw [hlength]
    rfl
  · rw [← hliteral, ← hfound]
    rfl
  · rw [hlength]
    rw [hstop] at hunmarked
    exact hunmarked

/-- A file that has a tree has no faulty lexeme, and no byte that it may not have. -/
theorem faults_parse {text : Bytes} {f : File} (h : File.parse text = .ok f) :
    (∀ l ∈ Lexer.lexemes text, l.faults = []) ∧ Lexer.encodingFaults text = [] := by
  unfold File.parse at h
  dsimp only at h
  split at h
  · rename_i f' c hrun hnone
    have hfaults : (Lexer.lexemes text).flatMap Lexeme.faults ++ Lexer.encodingFaults text
        ++ Lexer.markFaults text (Lexer.markedLines text (Lexer.lexemes text)) (Lexer.lexemes text)
        = [] := by
      unfold leastOffset at hnone
      split at hnone
      · assumption
      · cases hnone
    rw [List.append_eq_nil_iff, List.append_eq_nil_iff, List.flatMap_eq_nil_iff] at hfaults
    exact hfaults.1
  · cases h
  · cases h
  · cases h

end BridgeCall.Host
