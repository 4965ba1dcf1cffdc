import HpAgent.Stream.Wire
import Mathlib.Data.List.Induction

/-! # From the gateway to the client

The client cuts the text of a body at the same places however its bytes arrive, so it reads the same blocks as from
the whole text (`received_eq`), and a block gives back the fields of its envelope, except that white space at the start
of an id or an event type is lost (`receive_body`).

* `splitBlocks_resume`: a split can be resumed from its last part.
* `Cut`: what has been decoded of a body whose line ends are LF or CRLF.
* `wire_round_trip`: when the client gets the envelopes that were sent. -/

namespace HpAgent.Stream

open Library

variable {c : Char} {l : List Char}

/-! ### Splitting at blank lines -/

theorem splitBlocks_ne_nil (s : List Char) : splitBlocks s ≠ [] := by
  fun_induction splitBlocks s with
  | case1 => nofun
  | case2 c => nofun
  | case3 c d rest h ih => nofun
  | case4 c d rest h hnil ih => nofun
  | case5 c d rest h b bs hcons ih => nofun

theorem splitBlocks_cons_cons {d : Char} {rest b : List Char} {bs : List (List Char)} (h : ¬(c = '\n' ∧ d = '\n'))
    (hsplit : splitBlocks (d :: rest) = b :: bs) : splitBlocks (c :: d :: rest) = (c :: b) :: bs := by
  rw [splitBlocks, if_neg h, hsplit]

theorem splitBlocks_blank (rest : List Char) : splitBlocks ('\n' :: '\n' :: rest) = [] :: splitBlocks rest := by
  rw [splitBlocks, if_pos ⟨rfl, rfl⟩]

/-- A text that is not cut is its own only part. -/
theorem eq_of_splitBlocks_singleton {s r : List Char} (h : splitBlocks s = [r]) : s = r := by
  induction s generalizing r with
  | nil =>
      rw [splitBlocks] at h
      exact (List.cons.inj h).1
  | cons c rest ih =>
      cases rest with
      | nil =>
          rw [splitBlocks] at h
          exact (List.cons.inj h).1
      | cons d rest =>
          by_cases hblank : c = '\n' ∧ d = '\n'
          · obtain ⟨rfl, rfl⟩ := hblank
            rw [splitBlocks_blank] at h
            exact absurd (List.cons.inj h).2 (splitBlocks_ne_nil rest)
          · obtain ⟨b, bs, hsplit⟩ := List.exists_cons_of_ne_nil (splitBlocks_ne_nil (d :: rest))
            rw [splitBlocks_cons_cons hblank hsplit] at h
            obtain ⟨rfl, rfl⟩ := List.cons.inj h
            rw [ih hsplit]

/-- A split can be resumed from its last part: what comes before it is cut the same way whatever follows. -/
theorem splitBlocks_resume {s r : List Char} {bs : List (List Char)} (h : splitBlocks s = bs ++ [r]) :
    ∃ pre, s = pre ++ r ∧ ∀ z, splitBlocks (pre ++ z) = bs ++ splitBlocks z := by
  cases bs with
  | nil => exact ⟨[], eq_of_splitBlocks_singleton h, fun _ => rfl⟩
  | cons b₀ bs₀ =>
      induction hn : s.length using Nat.strongRecOn generalizing s b₀ bs₀ with
      | ind n ih =>
          match s, h, hn with
          | [], h, _ => exact absurd (congrArg List.length h) (by simp [splitBlocks])
          | [c], h, _ => exact absurd (congrArg List.length h) (by simp [splitBlocks])
          | c :: d :: rest, h, hn =>
              by_cases hblank : c = '\n' ∧ d = '\n'
              · obtain ⟨rfl, rfl⟩ := hblank
                rw [splitBlocks_blank] at h
                obtain ⟨rfl, hrest⟩ := List.cons.inj h
                cases bs₀ with
                | nil =>
                    refine ⟨['\n', '\n'], ?_, fun z => splitBlocks_blank z⟩
                    rw [eq_of_splitBlocks_singleton hrest]
                    rfl
                | cons b₁ bs₁ =>
                    obtain ⟨pre, hpre, hz⟩ := ih rest.length (by simp at hn; omega) b₁ bs₁ hrest rfl
                    refine ⟨'\n' :: '\n' :: pre, by rw [hpre]; rfl, fun z => ?_⟩
                    show splitBlocks ('\n' :: '\n' :: (pre ++ z)) = _
                    rw [splitBlocks_blank, hz]
                    rfl
              · obtain ⟨b, bs, hsplit⟩ := List.exists_cons_of_ne_nil (splitBlocks_ne_nil (d :: rest))
                rw [splitBlocks_cons_cons hblank hsplit] at h
                obtain ⟨rfl, rfl⟩ := List.cons.inj h
                obtain ⟨pre, hpre, hz⟩ := ih (d :: rest).length (by simp at hn ⊢; omega) b bs₀ hsplit rfl
                cases pre with
                | nil =>
                    have hlength := congrArg List.length (hz [])
                    simp [splitBlocks] at hlength
                | cons d' pre =>
                    obtain ⟨rfl, hrest⟩ := List.cons.inj hpre
                    refine ⟨c :: d :: pre, by rw [hrest]; rfl, fun z => ?_⟩
                    exact splitBlocks_cons_cons hblank (hz z)

/-! ### Line ends -/

theorem replaceCrlf_cons (hc : c ≠ '\r') (rest : List Char) : replaceCrlf (c :: rest) = c :: replaceCrlf rest := by
  cases rest with
  | nil => rfl
  | cons d rest => rw [replaceCrlf, if_neg (fun h => hc h.1)]

theorem replaceCrlf_crlf (rest : List Char) : replaceCrlf ('\r' :: '\n' :: rest) = '\n' :: replaceCrlf rest := by
  rw [replaceCrlf, if_pos ⟨rfl, rfl⟩]

/-- Text without carriage returns is left alone. -/
theorem replaceCrlf_append {q : List Char} (hq : '\r' ∉ q) (z : List Char) : replaceCrlf (q ++ z) = q ++ replaceCrlf z := by
  induction q with
  | nil => rfl
  | cons c rest ih =>
      rw [List.mem_cons, not_or] at hq
      show replaceCrlf (c :: (rest ++ z)) = _
      rw [replaceCrlf_cons (Ne.symm hq.1), ih hq.2]
      rfl

/-- The text behind a body whose line ends are LF or CRLF. -/
theorem LineEnds.replaceCrlf_eq {text wire : List Char} (h : LineEnds text wire) : replaceCrlf wire = text := by
  induction h with
  | nil => rfl
  | lf h ih => rw [replaceCrlf_cons (by decide), ih]
  | crlf h ih => rw [replaceCrlf_crlf, ih]
  | other hn hr h ih => rw [replaceCrlf_cons hr, ih]

/-- A beginning of a body, as the client sees it: text without carriage returns, and perhaps the one of a line end whose
line feed is still to come. -/
structure Cut (p q tail : List Char) : Prop where
  clean : '\r' ∉ q
  pending : tail = [] ∨ tail = ['\r']
  resume : ∀ z, replaceCrlf (p ++ z) = q ++ replaceCrlf (tail ++ z)

theorem Cut.cons {p q tail : List Char} {c : Char} (hc : c ≠ '\r') (h : Cut p q tail) : Cut (c :: p) (c :: q) tail := by
  refine ⟨?_, h.pending, fun z => ?_⟩
  · rw [List.mem_cons, not_or]
    exact ⟨hc.symm, h.clean⟩
  · show replaceCrlf (c :: (p ++ z)) = _
    rw [replaceCrlf_cons hc, h.resume]
    rfl

/-- A body may be sent as it is. -/
theorem LineEnds.refl {text : List Char} (h : '\r' ∉ text) : LineEnds text text := by
  induction text with
  | nil => exact .nil
  | cons c rest ih =>
      rw [List.mem_cons, not_or] at h
      by_cases hc : c = '\n'
      · rw [hc]
        exact .lf (ih h.2)
      · exact .other hc (Ne.symm h.1) (ih h.2)

/-- Every beginning of a body is cut so. -/
theorem LineEnds.cut {text wire : List Char} (h : LineEnds text wire) {p s : List Char} (hp : wire = p ++ s) :
    ∃ q tail, Cut p q tail := by
  have hnil : Cut [] [] [] := ⟨List.not_mem_nil, .inl rfl, fun _ => rfl⟩
  induction h generalizing p with
  | nil =>
      obtain ⟨rfl, -⟩ := List.append_eq_nil_iff.mp hp.symm
      exact ⟨[], [], hnil⟩
  | lf h ih =>
      cases p with
      | nil => exact ⟨[], [], hnil⟩
      | cons c p =>
          obtain ⟨rfl, hrest⟩ := List.cons.inj hp
          obtain ⟨q, tail, hcut⟩ := ih hrest
          exact ⟨_, tail, hcut.cons (by decide)⟩
  | crlf h ih =>
      match p, hp with
      | [], _ => exact ⟨[], [], hnil⟩
      | [c], hp =>
          obtain ⟨rfl, -⟩ := List.cons.inj hp
          exact ⟨[], ['\r'], List.not_mem_nil, .inr rfl, fun _ => rfl⟩
      | c :: d :: p, hp =>
          obtain ⟨rfl, hrest⟩ := List.cons.inj hp
          obtain ⟨rfl, hnext⟩ := List.cons.inj hrest
          obtain ⟨q, tail, hcut⟩ := ih hnext
          refine ⟨'\n' :: q, tail, ?_, hcut.pending, fun z => ?_⟩
          · rw [List.mem_cons, not_or]
            exact ⟨by decide, hcut.clean⟩
          · show replaceCrlf ('\r' :: '\n' :: (p ++ z)) = _
            rw [replaceCrlf_crlf, hcut.resume]
            rfl
  | other hn hr h ih =>
      cases p with
      | nil => exact ⟨[], [], hnil⟩
      | cons c p =>
          obtain ⟨rfl, hrest⟩ := List.cons.inj hp
          obtain ⟨q, tail, hcut⟩ := ih hrest
          exact ⟨_, tail, hcut.cons hr⟩

theorem splitBlocks_snoc {r : List Char} (hc : c ≠ '\n') (h : splitBlocks r = [r]) :
    splitBlocks (r ++ [c]) = [r ++ [c]] := by
  induction r with
  | nil => rfl
  | cons a rest ih =>
      cases rest with
      | nil => exact splitBlocks_cons_cons (fun hblank => hc hblank.2) rfl
      | cons d rest =>
          by_cases hblank : a = '\n' ∧ d = '\n'
          · obtain ⟨rfl, rfl⟩ := hblank
            rw [splitBlocks_blank] at h
            exact absurd (List.cons.inj h).2 (splitBlocks_ne_nil rest)
          · obtain ⟨b, bs, hsplit⟩ := List.exists_cons_of_ne_nil (splitBlocks_ne_nil (d :: rest))
            rw [splitBlocks_cons_cons hblank hsplit] at h
            obtain ⟨hb, rfl⟩ := List.cons.inj h
            obtain ⟨-, rfl⟩ := List.cons.inj hb
            exact splitBlocks_cons_cons hblank (ih hsplit)

/-- The blocks of a longer beginning are those of the shorter one and those of what was left of it with the new text. -/
theorem Cut.splitBlocks_append {p q tail : List Char} (h : Cut p q tail) (z : List Char) :
    splitBlocks (replaceCrlf (p ++ z)) = (splitBlocks (replaceCrlf p)).dropLast ++
      splitBlocks (replaceCrlf ((splitBlocks (replaceCrlf p)).getLastD [] ++ z)) := by
  obtain ⟨bs, r, hq⟩ := (List.eq_nil_or_concat (splitBlocks q)).resolve_left (splitBlocks_ne_nil q)
  rw [List.concat_eq_append] at hq
  obtain ⟨pre, rfl, hpre⟩ := splitBlocks_resume hq
  have hr : splitBlocks r = [r] := List.append_cancel_left ((hpre r).symm.trans hq)
  have hclean : '\r' ∉ r := fun hmem => h.clean (List.mem_append_right pre hmem)
  have htail : replaceCrlf tail = tail ∧ splitBlocks (r ++ tail) = [r ++ tail] := by
    obtain rfl | rfl := h.pending
    · rw [List.append_nil]
      exact ⟨rfl, hr⟩
    · exact ⟨rfl, splitBlocks_snoc (by decide) hr⟩
  have hp : splitBlocks (replaceCrlf p) = bs ++ [r ++ tail] := by
    have hresume := h.resume []
    rw [List.append_nil, List.append_nil, htail.1, List.append_assoc] at hresume
    rw [hresume, hpre, htail.2]
  rw [hp, List.dropLast_concat, List.getLastD_concat, h.resume, List.append_assoc, hpre, List.append_assoc,
    replaceCrlf_append hclean]

/-! ### The read loop -/

/-- What the reader has kept and dispatched of a beginning of the body. -/
structure Follows (r : Reader) (p : List Char) : Prop where
  started : r.started = !p.isEmpty
  buffer : r.buffer = (splitBlocks (replaceCrlf p)).getLastD []
  frames : r.frames = (splitBlocks (replaceCrlf p)).dropLast.filterMap parseSseEventBlock

theorem follows_start : Follows .start [] := ⟨rfl, rfl, rfl⟩

theorem dropMark_of_follows {p t : List Char} (hmark : ∀ c, (p ++ t).head? = some c → c.toNat ≠ 0xFEFF) :
    dropMark (!p.isEmpty) t = t := by
  cases p with
  | cons c rest => rfl
  | nil =>
      cases t with
      | nil => rfl
      | cons c rest =>
          show (if c.toNat = 0xFEFF then rest else c :: rest) = c :: rest
          rw [if_neg (hmark c rfl)]

theorem Follows.take {r : Reader} {p q tail : List Char} (h : Follows r p) (hcut : Cut p q tail) (decoder : Utf8.State) (t : List Char)
    (hmark : ∀ c, (p ++ t).head? = some c → c.toNat ≠ 0xFEFF) : Follows (r.take decoder t) (p ++ t) := by
  have hsplit := hcut.splitBlocks_append t
  obtain ⟨bs, b, hlast⟩ := (List.eq_nil_or_concat (splitBlocks (replaceCrlf ((splitBlocks (replaceCrlf p)).getLastD [] ++ t)))
    ).resolve_left (splitBlocks_ne_nil _)
  rw [List.concat_eq_append] at hlast
  have htext : extractSseFrames (r.buffer ++ dropMark r.started t) = (bs.filterMap parseSseEventBlock, b) := by
    unfold extractSseFrames
    dsimp only
    rw [h.started, dropMark_of_follows hmark, h.buffer, hlast, List.dropLast_concat, List.getLastD_concat]
  rw [hlast] at hsplit
  refine ⟨?_, ?_, ?_⟩
  · show (r.started || !t.isEmpty) = _
    rw [h.started]
    cases p with
    | nil => rfl
    | cons c rest => rfl
  · show (extractSseFrames (r.buffer ++ dropMark r.started t)).2 = _
    rw [htext, hsplit, ← List.append_assoc, List.getLastD_concat]
  · show r.frames ++ (extractSseFrames (r.buffer ++ dropMark r.started t)).1 = _
    rw [htext, hsplit, ← List.append_assoc, List.dropLast_concat, List.filterMap_append, h.frames]

theorem Reader.read_eq (r : Reader) (chunk : List ℕ) :
    r.read chunk = r.take (Utf8.feedAll r.decoder chunk).1 (Utf8.feedAll r.decoder chunk).2 := rfl

/-- The reader follows the body, however its bytes were cut. -/
theorem follows_read {text wire : List Char} (hlines : LineEnds text wire)
    (hmark : ∀ c, wire.head? = some c → c.toNat ≠ 0xFEFF) (chunks : List (List ℕ)) {rest : List ℕ}
    (h : Utf8.encode wire = chunks.flatten ++ rest) :
    (chunks.foldl Reader.read .start).decoder = (Utf8.feedAll Utf8.ready chunks.flatten).1 ∧
      Follows (chunks.foldl Reader.read .start) (Utf8.feedAll Utf8.ready chunks.flatten).2 := by
  induction chunks using List.reverseRecOn generalizing rest with
  | nil => exact ⟨rfl, follows_start⟩
  | append_singleton chunks chunk ih =>
      have hflatten : (chunks ++ [chunk]).flatten = chunks.flatten ++ chunk := by simp
      rw [hflatten, List.append_assoc] at h
      obtain ⟨hdecoder, hfollows⟩ := ih h
      have hfed := Utf8.feedAll_append Utf8.ready chunks.flatten chunk
      have hwire : wire = (Utf8.feedAll Utf8.ready (chunks.flatten ++ chunk)).2 ++
          (Utf8.feedAll (Utf8.feedAll Utf8.ready (chunks.flatten ++ chunk)).1 rest).2 := by
        have hall := Utf8.feedAll_append Utf8.ready (chunks.flatten ++ chunk) rest
        rw [List.append_assoc, ← h, Utf8.feedAll_encode] at hall
        exact congrArg Prod.snd hall
      rw [hfed] at hwire
      dsimp only at hwire
      rw [List.foldl_concat, hflatten, hfed, Reader.read_eq, hdecoder]
      refine ⟨rfl, ?_⟩
      obtain ⟨q, tail, hcut⟩ := hlines.cut (hwire.trans (List.append_assoc _ _ _))
      refine hfollows.take hcut _ _ fun c hc => hmark c ?_
      rw [hwire, List.head?_append, hc]
      rfl

/-- The client reads the blocks of the whole text. -/
theorem receive_eq {text wire : List Char} (hlines : LineEnds text wire)
    (hmark : ∀ c, wire.head? = some c → c.toNat ≠ 0xFEFF) {chunks : List (List ℕ)} (h : chunks.flatten = Utf8.encode wire) :
    receive chunks = (splitBlocks text).dropLast.filterMap parseSseEventBlock := by
  have hread := follows_read hlines hmark chunks (h.symm.trans (List.append_nil _).symm)
  rw [h, Utf8.feedAll_encode] at hread
  obtain ⟨hdecoder, hfollows⟩ := hread
  obtain ⟨q, tail, hcut⟩ := hlines.cut (List.append_nil wire).symm
  have hend := hfollows.take hcut Utf8.ready [] (by rw [List.append_nil]; exact hmark)
  rw [List.append_nil] at hend
  unfold receive Reader.finish
  rw [hdecoder]
  have hframes := hend.frames
  rw [hlines.replaceCrlf_eq] at hframes
  exact hframes

/-! ### The blocks of a body -/

/-- A text put before the first part of a split. -/
def before (l : List Char) : List (List Char) → List (List Char)
  | [] => [l]
  | b :: bs => (l ++ b) :: bs

theorem splitBlocks_line (hl : '\n' ∉ l) (z : List Char) :
    splitBlocks (l ++ z) = before l (splitBlocks z) := by
  induction l with
  | nil =>
      obtain ⟨b, bs, hsplit⟩ := List.exists_cons_of_ne_nil (splitBlocks_ne_nil z)
      rw [List.nil_append, hsplit]
      rfl
  | cons c rest ih =>
      rw [List.mem_cons, not_or] at hl
      obtain ⟨b, bs, hsplit⟩ := List.exists_cons_of_ne_nil (splitBlocks_ne_nil z)
      have hrest := ih hl.2
      rw [hsplit] at hrest ⊢
      show splitBlocks (c :: (rest ++ z)) = _
      cases htext : rest ++ z with
      | nil =>
          obtain ⟨rfl, rfl⟩ := List.append_eq_nil_iff.mp htext
          obtain ⟨rfl, rfl⟩ := List.cons.inj (hsplit.symm.trans (rfl : splitBlocks [] = [[]]))
          rfl
      | cons d text =>
          rw [htext] at hrest
          exact splitBlocks_cons_cons (fun h => hl.1 h.1.symm) hrest

/-- A line that another line follows. -/
theorem splitBlocks_next {z : List Char} (hl : '\n' ∉ l) (hz : z.head? = some c) (hc : c ≠ '\n') :
    splitBlocks (l ++ '\n' :: z) = before l (before ['\n'] (splitBlocks z)) := by
  obtain ⟨rest, rfl⟩ := List.head?_eq_some_iff.mp hz
  rw [splitBlocks_line hl]
  obtain ⟨b, bs, hsplit⟩ := List.exists_cons_of_ne_nil (splitBlocks_ne_nil (c :: rest))
  rw [splitBlocks_cons_cons (fun h => hc h.2) hsplit, hsplit]
  rfl

/-- A line that ends its block. -/
theorem splitBlocks_last (hl : '\n' ∉ l) (z : List Char) :
    splitBlocks (l ++ '\n' :: '\n' :: z) = l :: splitBlocks z := by
  rw [splitBlocks_line hl, splitBlocks_blank]
  show (l ++ []) :: _ = _
  rw [List.append_nil]

/-- Three lines that make a block. -/
theorem splitBlocks_lines {m n : List Char} {d : Char} (hl : '\n' ∉ l) (hm : '\n' ∉ m) (hn : '\n' ∉ n)
    (hc : m.head? = some c) (hc' : c ≠ '\n') (hd : n.head? = some d) (hd' : d ≠ '\n') (z : List Char) :
    splitBlocks (l ++ '\n' :: (m ++ '\n' :: (n ++ '\n' :: '\n' :: z))) = (l ++ '\n' :: (m ++ '\n' :: n)) :: splitBlocks z := by
  rw [splitBlocks_next hl (by rw [List.head?_append, hc]; rfl) hc', splitBlocks_next hm (by rw [List.head?_append, hd]; rfl) hd',
    splitBlocks_last hn]
  simp only [before, List.cons_append, List.nil_append]

/-- The block of an item. -/
def Item.block : Item → List Char
  | .envelope e => "id: ".toList ++ e.eventId ++ '\n' :: ("event: ".toList ++ e.eventType ++ '\n' :: ("data: ".toList ++ e.data))
  | .keepalive => ": keepalive".toList

/-- An envelope whose id and event type have no line breaks. -/
def Item.Unbroken : Item → Prop
  | .envelope e => Library.Unbroken e.eventId ∧ Library.Unbroken e.eventType
  | .keepalive => True

theorem Envelope.data_unbroken (e : Envelope) : Unbroken e.data :=
  Json.dumps_unbroken (by decide) (by decide) _

theorem keepaliveFrame_eq : keepaliveFrame = ": keepalive".toList ++ ['\n', '\n'] := by decide

theorem keepalive_text (z : List Char) : Item.keepalive.text ++ z = ": keepalive".toList ++ '\n' :: '\n' :: z := by
  unfold Item.text
  rw [keepaliveFrame_eq, List.append_assoc, List.cons_append, List.cons_append, List.nil_append]

theorem envelope_text (e : Envelope) (z : List Char) : (Item.envelope e).text ++ z =
    ("id: ".toList ++ e.eventId) ++ '\n' :: (("event: ".toList ++ e.eventType) ++
      '\n' :: (("data: ".toList ++ e.data) ++ '\n' :: '\n' :: z)) := by
  unfold Item.text sseFrame
  simp only [List.append_assoc, List.cons_append, List.nil_append]

theorem block_eq (e : Envelope) : (Item.envelope e).block =
    ("id: ".toList ++ e.eventId) ++ '\n' :: (("event: ".toList ++ e.eventType) ++ '\n' :: ("data: ".toList ++ e.data)) := by
  unfold Item.block
  simp only [List.append_assoc]

theorem not_mem_field {field s : List Char} (hfield : c ∉ field) (hs : c ∉ s) : c ∉ field ++ s := by
  rw [List.mem_append, not_or]
  exact ⟨hfield, hs⟩

theorem splitBlocks_item {item : Item} (h : item.Unbroken) (z : List Char) :
    splitBlocks (item.text ++ z) = item.block :: splitBlocks z := by
  cases item with
  | keepalive =>
      rw [keepalive_text]
      exact splitBlocks_last (by decide) z
  | envelope e =>
      rw [envelope_text, splitBlocks_lines (c := 'e') (d := 'd') (not_mem_field (by decide) h.1.1) (not_mem_field (by decide) h.2.1)
        (not_mem_field (by decide) e.data_unbroken.1) rfl (by decide) rfl (by decide), block_eq]

theorem splitBlocks_body {items : List Item} (h : ∀ item ∈ items, item.Unbroken) :
    splitBlocks (body items) = items.map Item.block ++ [[]] := by
  induction items with
  | nil => rfl
  | cons item rest ih =>
      show splitBlocks (item.text ++ body rest) = _
      rw [splitBlocks_item (h item List.mem_cons_self), ih fun i hi => h i (List.mem_cons_of_mem item hi)]
      rfl

/-! ### The fields of a block -/

theorem splitLines_line (hl : '\n' ∉ l) (z : List Char) :
    splitLines (l ++ '\n' :: z) = l :: splitLines z := by
  induction l with
  | nil =>
      show splitLines ('\n' :: z) = _
      rw [splitLines, if_pos rfl]
  | cons c rest ih =>
      rw [List.mem_cons, not_or] at hl
      show splitLines (c :: (rest ++ '\n' :: z)) = _
      rw [splitLines, if_neg (Ne.symm hl.1), ih hl.2]

theorem splitLines_last (hl : '\n' ∉ l) : splitLines l = [l] := by
  induction l with
  | nil => rfl
  | cons c rest ih =>
      rw [List.mem_cons, not_or] at hl
      rw [splitLines, if_neg (Ne.symm hl.1), ih hl.2]

/-- What the client makes of an item. -/
def Item.parsed : Item → Option SseFrame
  | .envelope e => some ⟨some (trimStart e.eventId), some (trimStart e.eventType), e.data⟩
  | .keepalive => none

/-- A JSON object starts with its brace. -/
theorem Envelope.trimStart_data (e : Envelope) : trimStart e.data = e.data := by
  show trimStart ('{' :: _) = '{' :: _
  unfold trimStart
  rw [List.dropWhile_cons_of_neg (by decide)]

theorem parse_block {item : Item} (h : item.Unbroken) : parseSseEventBlock item.block = item.parsed := by
  cases item with
  | keepalive => decide
  | envelope e =>
      obtain ⟨hid, htype⟩ := h
      have hdata := e.data_unbroken.1
      have hlines : splitLines (Item.envelope e).block =
          ["id: ".toList ++ e.eventId, "event: ".toList ++ e.eventType, "data: ".toList ++ e.data] := by
        unfold Item.block
        dsimp only
        rw [splitLines_line (by simpa using hid.1), splitLines_line (by simpa using htype.1),
          splitLines_last (by simpa using hdata)]
      have htrim (s : List Char) : trimStart (' ' :: s) = trimStart s := by
        unfold trimStart
        rw [List.dropWhile_cons_of_pos (by decide)]
      have hone (f : Fields) : f.line ("id: ".toList ++ e.eventId) = { f with id := some (trimStart e.eventId) } := by
        unfold Fields.line
        simp [htrim]
      have htwo (f : Fields) : f.line ("event: ".toList ++ e.eventType) = { f with event := some (trimStart e.eventType) } := by
        unfold Fields.line
        simp [htrim]
      have hthree (f : Fields) : f.line ("data: ".toList ++ e.data) = { f with data := f.data ++ [e.data] } := by
        unfold Fields.line
        simp [htrim, e.trimStart_data]
      unfold parseSseEventBlock
      rw [hlines]
      dsimp only [List.foldl]
      rw [hone, htwo, hthree, if_neg (by simp)]
      simp [Item.parsed]

/-! ### The round trip -/

theorem dropLast_blocks {items : List Item} (h : ∀ item ∈ items, item.Unbroken) :
    (splitBlocks (body items)).dropLast.filterMap parseSseEventBlock = items.filterMap Item.parsed := by
  rw [splitBlocks_body h, List.dropLast_concat, List.filterMap_map]
  exact List.filterMap_congr fun item hitem => parse_block (h item hitem)

/-- A body does not start with a byte order mark. -/
theorem head?_wire {items : List Item} {wire : List Char} (h : LineEnds (body items) wire)
    (hc : wire.head? = some c) : c.toNat ≠ 0xFEFF := by
  have hhead : ∀ d, (body items).head? = some d → d = 'i' ∨ d = ':' := by
    intro d hd
    cases items with
    | nil => cases hd
    | cons item rest =>
        cases item with
        | envelope e =>
            have htext : (body (.envelope e :: rest)).head? = some 'i' := by
              simp [body, Item.text, sseFrame]
            exact .inl (Option.some.inj (hd.symm.trans htext))
        | keepalive =>
            have htext : (body (.keepalive :: rest)).head? = some ':' := by
              show (Item.keepalive.text ++ body rest).head? = _
              rw [keepalive_text]
              simp
            exact .inr (Option.some.inj (hd.symm.trans htext))
  generalize body items = text at h hhead
  cases h with
  | nil => cases hc
  | lf h => exact absurd (hhead _ rfl) (by decide)
  | crlf h => exact absurd (hhead _ rfl) (by decide)
  | other hn hr h =>
      obtain rfl := Option.some.inj hc
      obtain rfl | rfl := hhead _ rfl
      · decide
      · decide

/-- What the client is given for a body, however its line ends are written and its bytes are cut. -/
theorem receive_body {items : List Item} (h : ∀ item ∈ items, item.Unbroken) {wire : List Char}
    (hlines : LineEnds (body items) wire) {chunks : List (List ℕ)} (hchunks : chunks.flatten = Utf8.encode wire) :
    receive chunks = items.filterMap Item.parsed := by
  rw [receive_eq hlines (fun c => head?_wire hlines) hchunks, dropLast_blocks h]

/-- Neither the id nor the event type starts with white space. -/
def Item.Flush : Item → Prop
  | .envelope e => (∀ c, e.eventId.head? = some c → isSpace c = false) ∧ ∀ c, e.eventType.head? = some c → isSpace c = false
  | .keepalive => True

theorem trimStart_eq_self (s : List Char) : trimStart s = s ↔ ∀ c, s.head? = some c → isSpace c = false := by
  unfold trimStart
  cases s with
  | nil => exact ⟨nofun, fun _ => rfl⟩
  | cons c rest =>
      constructor
      · intro h d hd
        obtain rfl := Option.some.inj hd
        cases hc : isSpace c with
        | false => rfl
        | true =>
            rw [List.dropWhile_cons_of_pos hc] at h
            have hlength := (List.dropWhile_suffix isSpace (l := rest)).length_le
            rw [h, List.length_cons] at hlength
            omega
      · intro h
        rw [List.dropWhile_cons_of_neg (by rw [h c rfl]; decide)]

theorem parsed_eq_frame (item : Item) : item.parsed = item.frame ↔ item.Flush := by
  cases item with
  | keepalive => exact ⟨fun _ => trivial, fun _ => rfl⟩
  | envelope e =>
      show some _ = some _ ↔ _ ∧ _
      rw [Option.some_inj, SseFrame.mk.injEq, Option.some_inj, Option.some_inj, trimStart_eq_self, trimStart_eq_self]
      exact ⟨fun h => ⟨h.1, h.2.1⟩, fun h => ⟨h.1, h.2, rfl⟩⟩

/-- Two readings of the same items agree when they agree on every item. -/
theorem filterMap_parsed_eq (items : List Item) :
    items.filterMap Item.parsed = items.filterMap Item.frame ↔ ∀ item ∈ items, item.parsed = item.frame := by
  induction items with
  | nil => simp
  | cons item rest ih =>
      rw [List.forall_mem_cons, ← ih]
      cases item with
      | keepalive =>
          show rest.filterMap Item.parsed = rest.filterMap Item.frame ↔ none = none ∧ _
          exact ⟨fun h => ⟨rfl, h⟩, And.right⟩
      | envelope e =>
          show _ :: rest.filterMap Item.parsed = _ :: rest.filterMap Item.frame ↔ some _ = some _ ∧ _
          rw [List.cons.injEq, Option.some_inj]

/-- The client gets exactly the envelopes that were sent, in their order and with their data, when no id and no event
type starts with white space; and only then. -/
theorem wire_round_trip {items : List Item} (h : ∀ item ∈ items, item.Unbroken) {wire : List Char}
    (hlines : LineEnds (body items) wire) {chunks : List (List ℕ)} (hchunks : chunks.flatten = Utf8.encode wire) :
    receive chunks = items.filterMap Item.frame ↔ ∀ item ∈ items, item.Flush := by
  rw [receive_body h hlines hchunks, filterMap_parsed_eq]
  exact forall₂_congr fun item _ => parsed_eq_frame item

/-- An envelope with an id and an event type, and nothing else. -/
def Envelope.bare (eventId eventType : List Char) : Envelope where
  body := [("event_id".toList, .str eventId), ("event_type".toList, .str eventType)]
  eventId := eventId
  eventType := eventType
  eventId_eq := by
    rw [List.lookup_cons_self]
  eventType_eq := by
    have hne : ("event_type".toList == "event_id".toList) = false := by decide
    rw [List.lookup_cons, hne]
    exact List.lookup_cons_self

/-- An envelope and a comment, cut inside the first line. -/
theorem wire_round_trip_bare :
    receive [(Utf8.encode (body [.envelope (.bare ['a'] ['b']), .keepalive])).take 3,
        (Utf8.encode (body [.envelope (.bare ['a'] ['b']), .keepalive])).drop 3] =
        [Item.envelope (.bare ['a'] ['b']), .keepalive].filterMap Item.frame ↔
      ∀ item ∈ [Item.envelope (.bare ['a'] ['b']), .keepalive], item.Flush := by
  have hunbroken : ∀ item ∈ [Item.envelope (.bare ['a'] ['b']), .keepalive], item.Unbroken := by
    rw [List.forall_mem_cons, List.forall_mem_singleton]
    exact ⟨(by decide : Unbroken ['a'] ∧ Unbroken ['b']), trivial⟩
  exact wire_round_trip hunbroken (.refl (by decide +kernel)) (by decide +kernel)

/-- A space at the start of an event id is lost on the way. -/
theorem wire_drops_space :
    receive [Utf8.encode (body [.envelope (.bare [' ', 'a'] ['b'])])] ≠
      [Item.envelope (.bare [' ', 'a'] ['b'])].filterMap Item.frame := by
  decide +kernel

end HpAgent.Stream
