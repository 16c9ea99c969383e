import FluentFixtures.Proofs.Faults
import FluentFixtures.Proofs.Yaml.Spots
import FluentFixtures.Yaml.Token

/-!
# Scanning flow collections

In a file of flow collections no key is required, so no candidate is ever at
fault, and where nothing is indented no block collection is open. From such a
state each part of a document is taken as the tokens it spells: `Takes`. A key
needs its candidate to be fresh at the colon, so it must not be too long.
-/

namespace FluentFixtures.Yaml

namespace Scan

variable {st st' after : Scan} {s t : Spot} {rest spots more : List Spot} {broke : Bool}

/-! ## Candidates -/

/-- The state without the candidates that are stale at a spot. -/
def fresh (st : Scan) (s : Spot) : Scan :=
  { st with candidates := st.candidates.takeWhile fun c => !isStale s c }

/-- The state where a line may have ended. -/
def onLine (st : Scan) (broke : Bool) : Scan :=
  if broke && !st.inFlow then { st with keyAllowed := true } else st

/-- Whether no candidate must be a key. -/
def Free (st : Scan) : Prop := ∀ c ∈ st.candidates, c.required = false

theorem Free.fresh (h : st.Free) (s : Spot) : (st.fresh s).Free :=
  fun c hc => h c ((List.takeWhile_sublist _).subset hc)

theorem Free.onLine (h : st.Free) (broke : Bool) : (st.onLine broke).Free := by
  unfold Scan.onLine
  split
  · exact h
  · exact h

theorem outer_onLine (st : Scan) (broke : Bool) : (st.onLine broke).outer = st.outer := by
  unfold onLine
  split <;> rfl

theorem dropStale_of_free (h : st.Free) (s : Spot) : st.dropStale s = .ok (st.fresh s) := by
  have hfind : (st.candidates.dropWhile fun c => !isStale s c).find? Candidate.required = none := by
    refine List.find?_eq_none.mpr fun c hc => ?_
    rw [h c ((List.dropWhile_sublist _).subset hc)]
    exact Bool.false_ne_true
  rw [dropStale, hfind]
  rfl

/-- Giving up the candidate at this depth leaves the others. -/
theorem dropCandidate_of_free (h : st.Free) (s : Spot) :
    ∃ candidates, st.dropCandidate s = .ok { st with candidates } ∧
      ∀ c ∈ candidates, c.required = false := by
  unfold dropCandidate candidate?
  cases hcandidates : st.candidates with
  | nil => exact ⟨[], by simp [← hcandidates], nofun⟩
  | cons c candidates =>
    have hc := h c (hcandidates ▸ List.mem_cons_self)
    have hothers : ∀ d ∈ candidates, d.required = false := fun d hd =>
      h d (hcandidates ▸ List.mem_cons_of_mem c hd)
    by_cases hdepth : c.depth = st.depth
    · simp only [hdepth, if_true, hc]
      exact ⟨candidates, rfl, hothers⟩
    · simp only [hdepth, if_false]
      exact ⟨c :: candidates, by simp [← hcandidates], List.forall_mem_cons.mpr ⟨hc, hothers⟩⟩

/-! ## Steps -/

theorem unwind_of_outer (h : st.outer = []) (column : Int) (mark : Mark) :
    st.unwind column mark = st := by
  rw [unwind, h]
  split <;> rfl

/-- A token is fetched where the next spot but blanks is taken. -/
theorem fetch_of_next (hfree : st.Free) (houter : st.outer = [])
    (hskip : skip false false spots = (broke, s :: rest)) (hend : isEnd s.char = false)
    (hnext : ((st.onLine broke).fresh s).next s rest = .ok (after, t :: more))
    (hafter : after.Free) : st.fetch spots = .ok (after.fresh t, t :: more) := by
  have hline : ((st.onLine broke).fresh s).outer = [] := (outer_onLine st broke).trans houter
  have hdrop := dropStale_of_free (hfree.onLine broke) s
  rw [onLine] at hdrop hnext hline
  rw [fetch, hskip]
  simp only [hdrop]
  rw [unwind_of_outer hline, hend, if_neg Bool.false_ne_true, hnext]
  simp only [dropStale_of_free hafter t]
  rfl

/-- The end of the file is fetched where only blanks are left. -/
theorem fetch_of_end (hfree : st.Free) (houter : st.outer = [])
    (hskip : skip false false spots = (broke, s :: rest)) (hend : isEnd s.char = true) :
    st.fetch spots = (((st.onLine broke).fresh s).finish s).map (·, []) := by
  have hline : ((st.onLine broke).fresh s).outer = [] := (outer_onLine st broke).trans houter
  have hdrop := dropStale_of_free (hfree.onLine broke) s
  rw [onLine] at hdrop hline
  rw [fetch, hskip]
  simp only [hdrop]
  rw [unwind_of_outer hline, hend, if_pos rfl]
  rfl

theorem run_of_fetch (hspots : spots ≠ []) (h : st.fetch spots = .ok (st', more)) :
    run st spots = run st' more := by
  cases spots with
  | nil => exact absurd rfl hspots
  | cons s rest =>
    rw [run]
    split
    · next herror => cases h.symm.trans herror
    · next hok =>
      cases h.symm.trans hok
      rfl

theorem isMarker_eq_false {mark : CodePoint} (h : s.char ≠ mark) :
    isMarker mark (s :: rest) = false := by
  unfold isMarker
  split
  · next heq =>
    cases heq
    simp [h]
  · rfl

/-- Whether a code point cannot begin a document marker. -/
def NoMarker (c : CodePoint) : Prop := c ≠ CodePoint.ofChar '-' ∧ c ≠ CodePoint.ofChar '.'

instance (c : CodePoint) : Decidable (NoMarker c) := inferInstanceAs (Decidable (_ ∧ _))

theorem next_of_indicator {result : Except Error Scan} (h : NoMarker s.char)
    (hindicator : st.indicator? s ((rest.head?.map Spot.char).getD 0) = some result) :
    st.next s rest = result.map (·, rest) := by
  rw [next, isMarker_eq_false h.1, isMarker_eq_false h.2]
  simp only [h.1, h.2, decide_false, Bool.or_self, Bool.and_false, Bool.false_and,
    Bool.false_eq_true, if_false, hindicator]

theorem next_of_content {saved : Scan} {lexeme : Lexeme} {keyAllowed : Bool} (h : NoMarker s.char)
    (hindicator : st.indicator? s ((rest.head?.map Spot.char).getD 0) = none)
    (hsaved : st.saveCandidate s = .ok saved)
    (hcontent : st.content s rest ((rest.head?.map Spot.char).getD 0) =
      .ok (lexeme, keyAllowed, more)) :
    st.next s rest = .ok ({ saved with keyAllowed }.push lexeme s.mark, more) := by
  rw [next, isMarker_eq_false h.1, isMarker_eq_false h.2]
  simp only [h.1, h.2, decide_false, Bool.or_self, Bool.and_false, Bool.false_and,
    Bool.false_eq_true, if_false, hindicator, hsaved, hcontent]

/-! ## Inside flow collections -/

/-- A state with given tokens, outside all block collections and inside a number of flow
collections, where no key is required; and whether a key may come next for sure. -/
structure Inside (st : Scan) (depth : Nat) (mayKey : Bool) (lexemes : List Lexeme) : Prop where
  lexemes : st.done.reverse.map Token.lexeme = lexemes
  count : st.count = st.done.length
  depth : st.depth = depth
  indent : st.indent = -1
  outer : st.outer = []
  free : st.Free
  key : mayKey = true → st.keyAllowed = true

section Inside

variable {depth : Nat} {mayKey : Bool} {lexemes : List Lexeme}

theorem Inside.fresh (h : st.Inside depth mayKey lexemes) (s : Spot) :
    (st.fresh s).Inside depth mayKey lexemes :=
  { h with free := h.free.fresh s }

theorem Inside.onLine (h : st.Inside depth mayKey lexemes) (broke : Bool) :
    (st.onLine broke).Inside depth mayKey lexemes := by
  unfold Scan.onLine
  split
  · exact { h with key := fun _ => rfl }
  · exact h

theorem Inside.push (h : st.Inside depth mayKey lexemes) (lexeme : Lexeme) (mark : Mark)
    (candidates : List Candidate) (hfree : ∀ c ∈ candidates, c.required = false) (depth' : Nat)
    (keyAllowed : Bool) :
    ({ st with candidates, depth := depth', keyAllowed }.push lexeme mark).Inside depth' keyAllowed
      (lexemes ++ [lexeme]) where
  lexemes := by simp [Scan.push, h.lexemes]
  count := by simp [Scan.push, h.count]
  depth := rfl
  indent := h.indent
  outer := h.outer
  free := hfree
  key hkey := hkey

theorem Inside.push_here (h : st.Inside depth mayKey lexemes) (lexeme : Lexeme) (mark : Mark)
    (candidates : List Candidate) (hfree : ∀ c ∈ candidates, c.required = false)
    (keyAllowed : Bool) :
    ({ st with candidates, keyAllowed }.push lexeme mark).Inside depth keyAllowed
      (lexemes ++ [lexeme]) := by
  have hpush := h.push lexeme mark candidates hfree st.depth keyAllowed
  exact { hpush with depth := h.depth }

/-- A token is taken behind blanks. -/
theorem Inside.run_next {depth' : Nat} {mayKey' : Bool} {lexemes' : List Lexeme} {q : Place}
    {more : Text} (h : st.Inside depth mayKey lexemes)
    (hskip : skip false false spots = (broke, s :: rest)) (hend : isEnd s.char = false)
    (hnext : ∀ here : Scan, here.Inside depth mayKey lexemes →
      ∃ after, here.next s rest = .ok (after, q.spots more) ∧
        after.Inside depth' mayKey' lexemes') :
    ∃ st', run st spots = run st' (q.spots more) ∧ st'.Inside depth' mayKey' lexemes' := by
  obtain ⟨after, hafter, hinside⟩ := hnext _ ((h.onLine broke).fresh s)
  obtain ⟨t, others, hmore⟩ := q.exists_spots more
  rw [hmore] at hafter ⊢
  have hspots : spots ≠ [] := by
    rintro rfl
    cases hskip
  exact ⟨after.fresh t,
    run_of_fetch hspots (fetch_of_next h.free h.outer hskip hend hafter hinside.free),
    hinside.fresh t⟩

end Inside

/-! ## Texts that are taken -/

/-- Whether a text is taken as tokens, whatever comes after it: from any state at one depth to a
state at another. -/
def Takes (depth : Nat) (mayKey : Bool) (text : Text) (depth' : Nat) (mayKey' : Bool)
    (lexemes : List Lexeme) : Prop :=
  ∀ (st : Scan) (done : List Lexeme) (p : Place) (rest : Text), st.Inside depth mayKey done →
    ∃ st' p', run st (p.spots (text ++ rest)) = run st' (Place.spots p' rest) ∧
      st'.Inside depth' mayKey' (done ++ lexemes)

section Takes

variable {depth depth' depth'' : Nat} {mayKey mayKey' mayKey'' : Bool} {text text' blanks : Text}
  {lexemes lexemes' : List Lexeme} {c : CodePoint} {lexeme : Lexeme}

theorem Takes.append (h : Takes depth mayKey text depth' mayKey' lexemes)
    (h' : Takes depth' mayKey' text' depth'' mayKey'' lexemes') :
    Takes depth mayKey (text ++ text') depth'' mayKey'' (lexemes ++ lexemes') := by
  intro st done p rest hst
  obtain ⟨st', p', hrun, hst'⟩ := h st done p (text' ++ rest) hst
  obtain ⟨st'', p'', hrun', hst''⟩ := h' st' _ p' rest hst'
  refine ⟨st'', p'', ?_, ?_⟩
  · rw [List.append_assoc, hrun, hrun']
  · rwa [← List.append_assoc]

/-- Whether a code point begins a token, and no comment or marker. -/
def Begins (c : CodePoint) : Prop :=
  isBreak c = false ∧ isEnd c = false ∧ c ≠ CodePoint.ofChar ' ' ∧ c ≠ CodePoint.ofChar '#' ∧
    NoMarker c

instance (c : CodePoint) : Decidable (Begins c) :=
  inferInstanceAs (Decidable (_ ∧ _ ∧ _ ∧ _ ∧ _))

theorem skip_of_begins (hc : Begins c) (broke : Bool) (p : Place) (t : Text) :
    skip false broke (p.spots (c :: t)) = (broke, p.spot c :: (p.after c).spots t) := by
  obtain ⟨hbreak, -, hspace, hcomment, -⟩ := hc
  rw [Place.spots_cons, skip]
  simp only [Place.spot, hbreak, hspace, hcomment, Bool.false_and, Bool.false_eq_true, if_false]

/-- What an indicator does to the state, it does behind blanks. -/
theorem takes_indicator (hblanks : Text.IsSpacing blanks) (hc : Begins c)
    (hindicator : ∀ {here : Scan} {done : List Lexeme} (s : Spot) (next : CodePoint),
      here.Inside depth mayKey done → s.char = c →
      ∃ after, here.indicator? s next = some (.ok after) ∧
        after.Inside depth' mayKey' (done ++ lexemes)) :
    Takes depth mayKey (blanks ++ [c]) depth' mayKey' lexemes := by
  intro st done p rest hst
  obtain ⟨broke, p', hskip⟩ := skip_blanks hblanks p false (c :: rest)
  rw [skip_of_begins hc] at hskip
  have hnext : ∀ here : Scan, here.Inside depth mayKey done →
      ∃ after, here.next (p'.spot c) ((p'.after c).spots rest) = .ok (after, (p'.after c).spots rest) ∧
        after.Inside depth' mayKey' (done ++ lexemes) := by
    intro here hhere
    obtain ⟨after, hafter, hinside⟩ := hindicator (p'.spot c) _ hhere rfl
    exact ⟨after, by rw [next_of_indicator hc.2.2.2.2 hafter]; rfl, hinside⟩
  obtain ⟨st', hrun, hst'⟩ := hst.run_next hskip hc.2.1 hnext
  rw [List.append_assoc]
  exact ⟨st', p'.after c, hrun, hst'⟩

/-- A candidate is saved where a key may come; it is not required. -/
theorem Inside.saveCandidate {done : List Lexeme} (h : st.Inside depth mayKey done) (s : Spot) :
    ∃ candidates, st.saveCandidate s = .ok { st with candidates } ∧
      (∀ c ∈ candidates, c.required = false) ∧
      (mayKey = true → ∃ others, candidates = ⟨st.count, depth, false, s.index, s.mark⟩ :: others) := by
  obtain ⟨candidates, hdrop, hfree⟩ := dropCandidate_of_free h.free s
  by_cases hkey : st.keyAllowed = true
  · have hrequired : (!st.inFlow && decide (st.indent = s.column)) = false := by
      have hcolumn : st.indent ≠ s.column := by
        rw [h.indent]
        omega
      simp [hcolumn]
    refine ⟨⟨st.count, depth, false, s.index, s.mark⟩ :: candidates, ?_, ?_, fun _ => ⟨_, rfl⟩⟩
    · rw [Scan.saveCandidate, if_pos hkey]
      simp only [hdrop, hrequired, bind, Except.bind, h.depth]
    · exact List.forall_mem_cons.mpr ⟨rfl, hfree⟩
  · refine ⟨st.candidates, by rw [Scan.saveCandidate, if_neg hkey], h.free, fun hmay => ?_⟩
    exact absurd (h.key hmay) hkey

theorem takes_open (hblanks : Text.IsSpacing blanks) (hc : Begins c)
    (hindicator : ∀ (st : Scan) (s : Spot) (next : CodePoint), s.char = c →
      st.indicator? s next = some (st.openFlow s lexeme)) :
    Takes depth mayKey (blanks ++ [c]) (depth + 1) true [lexeme] := by
  refine takes_indicator hblanks hc fun {here done} s next hhere hs => ?_
  obtain ⟨candidates, hsave, hfree, -⟩ := hhere.saveCandidate s
  rw [hindicator here s next hs, openFlow, hsave]
  exact ⟨_, rfl, hhere.depth ▸ hhere.push lexeme s.mark candidates hfree _ true⟩

theorem takes_close (hblanks : Text.IsSpacing blanks) (hc : Begins c)
    (hindicator : ∀ (st : Scan) (s : Spot) (next : CodePoint), s.char = c →
      st.indicator? s next = some (st.closeFlow s lexeme)) :
    Takes (depth + 1) mayKey (blanks ++ [c]) depth false [lexeme] := by
  refine takes_indicator hblanks hc fun {here done} s next hhere hs => ?_
  obtain ⟨candidates, hdrop, hfree⟩ := dropCandidate_of_free hhere.free s
  have hdepth : here.depth - 1 = depth := by rw [hhere.depth, Nat.add_sub_cancel]
  rw [hindicator here s next hs, closeFlow, hdrop]
  exact ⟨_, rfl, hdepth ▸ hhere.push lexeme s.mark candidates hfree _ false⟩

theorem takes_comma (depth : Nat) (mayKey : Bool) (hblanks : Text.IsSpacing blanks) :
    Takes depth mayKey (blanks ++ [CodePoint.ofChar ',']) depth true [.flowEntry] := by
  refine takes_indicator hblanks (by decide) fun {here done} s next hhere hs => ?_
  have hfree : Free { here with keyAllowed := true } := hhere.free
  obtain ⟨candidates, hdrop, hfree⟩ := dropCandidate_of_free hfree s
  have hindicator : here.indicator? s next = some (here.flowEntry s) := by
    rw [indicator?, hs]
    rfl
  rw [hindicator, flowEntry, hdrop]
  exact ⟨_, rfl, hhere.push_here .flowEntry s.mark candidates hfree true⟩

/-! ## Quoted texts and keys -/

variable {t name : Text}

/-- The token of a quoted text; where a key may come, it is a candidate. -/
theorem Inside.next_quote {done : List Lexeme} (h : st.Inside depth mayKey done)
    (ht : t.PrintableAscii) (p : Place) (rest : Text) :
    ∃ candidates, (∀ c ∈ candidates, c.required = false) ∧
      (mayKey = true → ∃ others,
        candidates = ⟨st.count, depth, false, p.index, ⟨p.line, p.column⟩⟩ :: others) ∧
      st.next (p.spot (CodePoint.ofChar '"'))
          ((p.after (CodePoint.ofChar '"')).spots
            (t.flatMap Json.escapePoint ++ CodePoint.ofChar '"' :: rest)) =
        .ok ({ st with candidates, keyAllowed := false }.push (.scalar false t) ⟨p.line, p.column⟩,
          Place.spots ⟨p.index + (Json.quote t).length, p.line,
            p.column + (Json.quote t).length⟩ rest) := by
  obtain ⟨candidates, hsave, hfree, hhead⟩ := h.saveCandidate (p.spot (CodePoint.ofChar '"'))
  obtain ⟨front, q, hspots, hfront, hq⟩ := exists_spots_quoted ht p rest
  refine ⟨candidates, hfree, hhead, ?_⟩
  have hcontent (after : CodePoint) : st.content (p.spot (CodePoint.ofChar '"'))
      ((p.after (CodePoint.ofChar '"')).spots
        (t.flatMap Json.escapePoint ++ CodePoint.ofChar '"' :: rest)) after =
      .ok (.scalar false t, false, Place.spots ⟨p.index + (Json.quote t).length, p.line,
        p.column + (Json.quote t).length⟩ rest) := by
    rw [content, hspots]
    simp only [Place.spot]
    rw [if_neg (by decide), if_neg (by decide), if_pos (by simp)]
    simp only [decide_true, quotedRest_quote ht hfront hq]
    rfl
  have hmarker : NoMarker (CodePoint.ofChar '"') := by decide
  exact next_of_content hmarker (by rw [indicator?]; rfl) hsave (hcontent _)

theorem takes_quote (hblanks : Text.IsSpacing blanks) (ht : t.PrintableAscii) :
    Takes depth mayKey (blanks ++ Json.quote t) depth false [.scalar false t] := by
  intro st done p rest hst
  have hbegins : Begins (CodePoint.ofChar '"') := by decide
  obtain ⟨broke, p', hskip⟩ := skip_blanks hblanks p false
    (CodePoint.ofChar '"' :: (t.flatMap Json.escapePoint ++ CodePoint.ofChar '"' :: rest))
  rw [skip_of_begins hbegins] at hskip
  obtain ⟨st', hrun, hst'⟩ := hst.run_next hskip hbegins.2.1 <| by
    intro here hhere
    obtain ⟨candidates, hfree, -, hnext⟩ := hhere.next_quote ht p' rest
    exact ⟨_, hnext, hhere.push_here (.scalar false t) _ candidates hfree false⟩
  rw [List.append_assoc, quote_append]
  exact ⟨st', _, hrun, hst'⟩

/-- A candidate that is not stale stays first. -/
theorem exists_fresh {candidate : Candidate} {others : List Candidate}
    (hcandidates : st.candidates = candidate :: others) (hstale : isStale s candidate = false) :
    ∃ others', (st.fresh s).candidates = candidate :: others' := by
  refine ⟨others.takeWhile fun c => !isStale s c, ?_⟩
  show st.candidates.takeWhile _ = _
  rw [hcandidates, List.takeWhile_cons, hstale]
  rfl

theorem Inside.exists_last {done : List Lexeme} (h : st.Inside depth mayKey (done ++ [lexeme])) :
    ∃ token tokens, st.done = token :: tokens ∧ token.lexeme = lexeme ∧
      tokens.reverse.map Token.lexeme = done := by
  have hlexemes := h.lexemes
  cases hdone : st.done with
  | nil =>
    rw [hdone] at hlexemes
    simp at hlexemes
  | cons token tokens =>
    rw [hdone, List.reverse_cons, List.map_append] at hlexemes
    obtain ⟨htokens, htoken⟩ := List.append_inj' hlexemes rfl
    exact ⟨token, tokens, rfl, List.head_eq_of_cons_eq htoken, htokens⟩

/-- At a colon the last token, if it is the candidate at this depth, becomes a key. -/
theorem Inside.value_of_candidate {done : List Lexeme} {candidate : Candidate}
    {others : List Candidate} (h : st.Inside (depth + 1) mayKey (done ++ [lexeme]))
    (hcandidates : st.candidates = candidate :: others) (hdepth : candidate.depth = depth + 1)
    (hbefore : candidate.before + 1 = st.count) (s : Spot) :
    ∃ after, st.value s = .ok after ∧
      after.Inside (depth + 1) false (done ++ [.key, lexeme, .value]) := by
  obtain ⟨token, tokens, hdone, rfl, htokens⟩ := h.exists_last
  have hcandidate : st.candidate? = some (candidate, others) := by
    rw [candidate?, hcandidates]
    simp only [hdepth, h.depth, if_true]
  have hflow : st.inFlow = true := by simp [inFlow, h.depth]
  have hafter : st.count - candidate.before = 1 := by omega
  rw [value, hcandidate]
  simp only [hflow, if_true, Bool.false_eq_true, if_false, insertBefore, hafter, hdone]
  refine ⟨_, rfl, ?_⟩
  constructor
  case lexemes =>
    simp only [Scan.push, List.take_succ_cons, List.take_zero, List.drop_succ_cons, List.drop_zero]
    simp [htokens]
  case count =>
    have hcount := h.count
    rw [hdone] at hcount
    simp [Scan.push, hcount]
  case depth => exact h.depth
  case indent => exact h.indent
  case outer => exact h.outer
  case free =>
    intro c hc
    exact h.free c (hcandidates ▸ List.mem_cons_of_mem candidate hc)
  case key => nofun

/-- Whether the last token can still be a key at a spot. -/
def KeyAt (st : Scan) (depth : Nat) (s : Spot) : Prop :=
  ∃ candidate others, st.candidates = candidate :: others ∧ candidate.depth = depth ∧
    candidate.before + 1 = st.count ∧ isStale s candidate = false

theorem KeyAt.fresh {depth : Nat} (h : st.KeyAt depth s) : (st.fresh s).KeyAt depth s := by
  obtain ⟨candidate, others, hcandidates, hdepth, hbefore, hstale⟩ := h
  obtain ⟨others', hfresh⟩ := exists_fresh hcandidates hstale
  exact ⟨candidate, others', hfresh, hdepth, hbefore, hstale⟩

/-- A name can be a key at a colon after it, unless it is too long. -/
theorem Inside.run_name {done : List Lexeme} (h : st.Inside depth true done)
    (hblanks : Text.IsSpacing blanks) (hname : name.PrintableAscii)
    (hlength : (Json.quote name).length ≤ 1024) (p : Place) (rest : Text) :
    ∃ st' colon, run st (p.spots (blanks ++ (Json.quote name ++ CodePoint.ofChar ':' :: rest))) =
        run st' (Place.spots colon (CodePoint.ofChar ':' :: rest)) ∧
      st'.Inside depth false (done ++ [.scalar false name]) ∧
      st'.KeyAt depth (Place.spot colon (CodePoint.ofChar ':')) := by
  have hquote : Begins (CodePoint.ofChar '"') := by decide
  obtain ⟨broke, p', hskip⟩ := skip_blanks hblanks p false
    (Json.quote name ++ CodePoint.ofChar ':' :: rest)
  rw [quote_append, skip_of_begins hquote, ← quote_append] at hskip
  have hhere := (h.onLine broke).fresh (p'.spot (CodePoint.ofChar '"'))
  obtain ⟨candidates, hfree, hhead, hnext⟩ :=
    hhere.next_quote hname p' (CodePoint.ofChar ':' :: rest)
  obtain ⟨others, rfl⟩ := hhead rfl
  have hafter := hhere.push_here (.scalar false name) ⟨p'.line, p'.column⟩ _ hfree false
  generalize hcolon : (⟨p'.index + (Json.quote name).length, p'.line,
    p'.column + (Json.quote name).length⟩ : Place) = colon at hnext
  rw [Place.spots_cons] at hnext
  have hfetch := fetch_of_next h.free h.outer hskip hquote.2.1 hnext hafter.free
  rw [← Place.spots_cons] at hfetch
  refine ⟨_, colon, run_of_fetch (p.spots_ne_nil _) hfetch, hafter.fresh _, KeyAt.fresh ?_⟩
  refine ⟨_, others, rfl, rfl, rfl, ?_⟩
  rw [← hcolon]
  simp only [isStale, Place.spot]
  simp
  omega

theorem takes_key (hblanks : Text.IsSpacing blanks) (hname : name.PrintableAscii)
    (hlength : (Json.quote name).length ≤ 1024) :
    Takes (depth + 1) true (blanks ++ Json.quote name ++ [CodePoint.ofChar ':']) (depth + 1) false
      [.key, .scalar false name, .value] := by
  intro st done p rest hst
  have hcolon : Begins (CodePoint.ofChar ':') := by decide
  obtain ⟨named, colon, hrun, hnamed, hkey⟩ := hst.run_name hblanks hname hlength p rest
  have hskip := skip_of_begins hcolon false colon rest
  obtain ⟨candidate, others, hcandidates, hdepth, hbefore, -⟩ := hkey.fresh
  have hhere := hnamed.fresh (Place.spot colon (CodePoint.ofChar ':'))
  obtain ⟨after, hvalue, hafter⟩ := hhere.value_of_candidate hcandidates hdepth hbefore
    (Place.spot colon (CodePoint.ofChar ':'))
  have hindicator (next : CodePoint) : (named.fresh (colon.spot (CodePoint.ofChar ':'))).indicator?
      (colon.spot (CodePoint.ofChar ':')) next = some (.ok after) := by
    have hflow : (named.fresh (colon.spot (CodePoint.ofChar ':'))).inFlow = true := by
      simp [inFlow, hhere.depth]
    rw [← hvalue, indicator?, hflow]
    rfl
  have hnext := next_of_indicator hcolon.2.2.2.2 <| hindicator
    ((((colon.after (CodePoint.ofChar ':')).spots rest).head?.map Spot.char).getD 0)
  obtain ⟨t, more, hmore⟩ := (colon.after (CodePoint.ofChar ':')).exists_spots rest
  rw [hmore] at hskip hnext
  have hfetch := fetch_of_next hnamed.free hnamed.outer hskip hcolon.2.1 hnext hafter.free
  refine ⟨after.fresh t, colon.after (CodePoint.ofChar ':'), ?_, hafter.fresh t⟩
  have htext : blanks ++ Json.quote name ++ [CodePoint.ofChar ':'] ++ rest =
      blanks ++ (Json.quote name ++ CodePoint.ofChar ':' :: rest) := by simp
  rw [htext, hrun, hmore]
  exact run_of_fetch (colon.spots_ne_nil _) hfetch

end Takes

end Scan

end FluentFixtures.Yaml
