import CSurvey.Text.ClusterBreak
import CSurvey.Text.Emoji

/-!
Texts cut into clusters, the characters that a reader perceives: a base with its marks, a Hangul
syllable, an Indic conjunct, a flag, or a sequence of joined emoji. The clusters of a text are not
empty, and put together they are the text.
-/

namespace CSurvey.Text

/-- Whether `next` belongs to the Hangul syllable that ends in `last`. -/
def joinsHangul (last next : Char) : Bool :=
  match hangulPart? last, hangulPart? next with
  | some .lead, some part => part ≠ .tail
  | some .vowel, some part | some .openSyllable, some part => part = .vowel || part = .tail
  | some .tail, some part | some .closedSyllable, some part => part = .tail
  | _, _ => false

/-- Whether `next` is a consonant that a sign links to the consonant before it. The text before
`next` is given from its end. -/
def joinsConjunct (before : List Char) (next : Char) : Bool :=
  isConjunctConsonant next
    && (before.takeWhile isConjunctSign).any (· ∈ conjunctLinkers)
    && (before.dropWhile isConjunctSign).head?.any isConjunctConsonant

/-- Whether `next` is a pictograph that a joiner ties to the pictograph before it. The text before
`next` is given from its end. -/
def joinsPictograph (before : List Char) (next : Char) : Bool :=
  match before with
  | [] => false
  | last :: earlier =>
    last = joiner && isPictograph next && (earlier.dropWhile isMark).head?.any isPictograph

/-- Whether `next` is the second letter of a flag. The text before `next` is given from its end. -/
def joinsFlag (before : List Char) (next : Char) : Bool :=
  isRegional next && (before.takeWhile isRegional).length % 2 = 1

/-- Whether `next` belongs to the cluster before it, which is given from its end. -/
def joins (before : List Char) (next : Char) : Bool :=
  match before with
  | [] => false
  | last :: _ =>
    if last = '\r' && next = '\n' then true
    else if isStandalone last || isStandalone next then false
    else isMark next || isSpacingMark next || next = joiner || isPrepended last
      || joinsHangul last next || joinsConjunct before next || joinsPictograph before next
      || joinsFlag before next

/-- The clusters of a text of which the last cluster before it, given from its end, is begun. -/
def clustersAfter (before : List Char) : List Char → List (List Char)
  | [] => [before.reverse]
  | c :: cs =>
    if joins before c then clustersAfter (c :: before) cs
    else before.reverse :: clustersAfter [c] cs

/-- The clusters of a text. -/
def clusters : List Char → List (List Char)
  | [] => []
  | c :: cs => clustersAfter [c] cs

theorem flatten_clustersAfter (before cs : List Char) :
    (clustersAfter before cs).flatten = before.reverse ++ cs := by
  induction cs generalizing before with
  | nil => simp [clustersAfter]
  | cons c cs ih =>
    rw [clustersAfter]
    split
    · simp [ih]
    · simp [ih]

theorem flatten_clusters (cs : List Char) : (clusters cs).flatten = cs := by
  cases cs with
  | nil => rfl
  | cons c cs => simp [clusters, flatten_clustersAfter]

theorem clustersAfter_ne_nil {before cs cluster : List Char} (hb : before ≠ [])
    (h : cluster ∈ clustersAfter before cs) : cluster ≠ [] := by
  induction cs generalizing before with
  | nil =>
    simp only [clustersAfter, List.mem_singleton] at h
    simpa [h] using hb
  | cons c cs ih =>
    rw [clustersAfter] at h
    split at h
    · exact ih (by simp) h
    · rcases List.mem_cons.1 h with rfl | h
      · simpa using hb
      · exact ih (by simp) h

theorem clusters_ne_nil {cs cluster : List Char} (h : cluster ∈ clusters cs) : cluster ≠ [] := by
  cases cs with
  | nil => simp [clusters] at h
  | cons c cs => exact clustersAfter_ne_nil (by simp) h

end CSurvey.Text
