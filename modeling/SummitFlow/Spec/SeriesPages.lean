import SummitFlow.Spec.SeriesRollups

/-!
# Pages of a series and the whole series

A client that follows the cursors of a series gets its buckets page by page.  Every
bucket has the rows it has on a page that holds the whole window.  A rate also needs the
observation before its row, and a page looks back for it by 60 seconds only: the pages
give the rates of the whole window as long as the chain of observations is renewed
there, or has nothing to say across a longer gap.
-/

namespace SummitFlow.Monitor

variable {N : Type}

/-! ## Rows -/

/-- Where the rows begin that a page shows. -/
def pageStart (q : SeriesFilters) (first : Int) : Int := max (readStart q first) (q.bucketStart first)

/-- What a row has to say, where it can be read. -/
def RateSource.observation (source : RateSource N) (row : Row N) : Option source.Observation :=
  (source.observe row).toOption.join

/-- The rates of rows that follow on an observation, by row id. -/
def RateSource.rates (source : RateSource N) (previous : Option source.Observation)
    (rows : List (Row N)) : List (Int × Option N) :=
  (rows.map Row.id).zip (source.chain.values previous (rows.map source.observation))

namespace RateSource

variable {source : RateSource N}

end RateSource

/-- Across every start of a page, the look-back joins the chain of observations. -/
def LookBackJoins (nums : Numbers N) (content : Content N) (q : SeriesFilters) : Prop :=
  ∀ source ∈ rateSource nums q, ∀ first, 0 < first → first < q.bucketCount →
    let observations (start stop : Int) :=
      (slice Row.sampledAtNs start stop content.byTime).map source.observation
    source.chain.joined
      (source.chain.after none (observations (readStart q 0) (readStart q first)))
      (observations (readStart q first) (pageStart q first))
      (observations (pageStart q first) q.until)

/-- The observation before a page joins on to it. -/
theorem LookBackJoins.at {nums : Numbers N} {content : Content N} {q : SeriesFilters}
    (h : LookBackJoins nums content q) {source : RateSource N}
    (hsource : source ∈ rateSource nums q) {first : Int} (hfirst : 0 ≤ first)
    (hcount : first < q.bucketCount) :
    source.chain.joined
      (source.chain.after none
        ((slice Row.sampledAtNs (readStart q 0) (readStart q first) content.byTime).map
          source.observation))
      ((slice Row.sampledAtNs (readStart q first) (pageStart q first) content.byTime).map
        source.observation)
      ((slice Row.sampledAtNs (pageStart q first) q.until content.byTime).map
        source.observation) := by
  rcases Int.lt_or_eq_of_le hfirst with hpos | rfl
  · exact h source hsource first hpos hcount
  · -- the first page has nothing before it
    have hnone : slice Row.sampledAtNs (readStart q 0) (readStart q 0) content.byTime = [] := by
      unfold slice
      rw [List.filter_eq_nil_iff]
      intro row _
      simp
    rw [hnone]
    trivial

section

variable (nums : Numbers N) (content : Content N) (q : SeriesFilters) (unit : String) (now : Int)

end

namespace SeriesFilters

variable {q : SeriesFilters}

end SeriesFilters

end SummitFlow.Monitor
