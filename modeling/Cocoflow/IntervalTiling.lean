import Mathlib.Data.List.Pairwise
import Mathlib.Order.Interval.Set.LinearOrder

/-!
Half-open intervals that are laid out one behind another, without gaps.
-/

namespace Cocoflow.IntervalTiling

variable {Point : Type*} [LinearOrder Point] {start middle stop : Point}
  {pieces more : List (Point × Point)}

end Cocoflow.IntervalTiling
