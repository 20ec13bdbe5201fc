/-
  The position solver of `hw5.m`: from the pseudoranges of eight satellites to the receiver.

  1. **Data** — `Position`, Earth-fixed coordinates; `Estimate`, the receiver's position and clock
     bias; `Vars`, the variables of the loop.
  2. **Geometry** — `atReception`, `R`, `H` and `h` for the satellites' positions at transmission
     and the signals' delays.
  3. **Correction** — `xHat`: the residuals times `M`, which is MATLAB's `linsolve(H',I')'`.
     `linsolve` is a parameter.
  4. **Loop** — `cond`, `body` and `start`, for any function that computes the correction from the
     estimate; `correction` is the one of the script, with the satellites on the orbits of
     `Orbit.SatPosition`.
-/
import GpsReceiver.Lib.While
import GpsReceiver.Orbit.SatPosition

namespace GpsReceiver.Positioning

open GpsReceiver.Orbit (Ephemeris omegaDotE)
open Matrix

/-! ## Data -/

/-- Earth-fixed coordinates. -/
structure Position where
  x : ℝ
  y : ℝ
  z : ℝ

/-- The position with the given vector of coordinates. -/
def Position.ofVec (v : Fin 3 → ℝ) : Position where
  x := vecHead v
  y := vecHead (vecTail v)
  z := vecHead (vecTail (vecTail v))

/-- The estimated position `x_rx` and clock bias `tb_R` of the receiver. -/
structure Estimate where
  xRx : Position
  tbR : ℝ

/-- The initial guess. -/
noncomputable def guess : Estimate where
  xRx := { x := -2701206.38, y := -4293642.366, z := 3857878.924 }
  tbR := 0

/-- Speed of light. -/
noncomputable def c : ℝ := 299792458

/-! ## Geometry -/

/-- Delays of the signals with pseudoranges `pr`. -/
noncomputable def tau (pr : Fin 8 → ℝ) (tbR : ℝ) : Fin 8 → ℝ := fun i => (pr i - c * tbR) / c

/-- `(x_k_rx, y_k_rx, z_k_rx)`: the position in the frame the Earth has turned to during `tau`. -/
noncomputable def atReception (tau : ℝ) (p : Position) : Position where
  x := Real.cos (omegaDotE * tau) * p.x + Real.sin (omegaDotE * tau) * p.y
  y := -Real.sin (omegaDotE * tau) * p.x + Real.cos (omegaDotE * tau) * p.y
  z := p.z

/-- Range from the receiver to a satellite. -/
noncomputable def R (xRx p : Position) : ℝ :=
  √((p.x - xRx.x) ^ 2 + (p.y - xRx.y) ^ 2 + (p.z - xRx.z) ^ 2)

/-- One row of `H`: the coordinate differences to `s` over a range. -/
noncomputable def rowOfH (xRx s : Position) (range : ℝ) : Fin 4 → ℝ :=
  ![(xRx.x - s.x) / range, (xRx.y - s.y) / range, (xRx.z - s.z) / range, 1]

section

variable (est : Estimate) (p : Fin 8 → Position) (tau : Fin 8 → ℝ)

/-- The observation matrix for satellites at `p` at transmission. -/
noncomputable def H : Matrix (Fin 8) (Fin 4) ℝ :=
  Matrix.of fun i => rowOfH est.xRx (atReception (tau i) (p i)) (R est.xRx (p i))

/-- The predicted pseudoranges. -/
noncomputable def h : Fin 8 → ℝ := fun i => R est.xRx (p i) + c * est.tbR

end

/-! ## Correction -/

section

variable (linsolve : Matrix (Fin 4) (Fin 8) ℝ → Matrix (Fin 4) (Fin 4) ℝ → Matrix (Fin 8) (Fin 4) ℝ)

/-- `M = linsolve(H',I'); M = M'`. -/
def M (H : Matrix (Fin 8) (Fin 4) ℝ) : Matrix (Fin 4) (Fin 8) ℝ := (linsolve Hᵀ 1ᵀ)ᵀ

/-- `x_hat = M*y`. -/
def xHat (H : Matrix (Fin 8) (Fin 4) ℝ) (y : Fin 8 → ℝ) : Fin 4 → ℝ := M linsolve H *ᵥ y

/-- The satellites' positions at transmission, for the pseudoranges `pr` received at `t`.  `keplerE`
    is `kepler_E.m`, called with the vectors of eccentricities and mean anomalies. -/
noncomputable def satellites (eph : Fin 8 → Ephemeris)
    (keplerE : (Fin 8 → ℝ) → (Fin 8 → ℝ) → Fin 8 → ℝ) (t : ℝ) (tau : Fin 8 → ℝ) :
    Fin 8 → Position := fun i =>
  .ofVec ((eph i).position (t - tau i - (eph i).toe)
    (keplerE (fun j => (eph j).e) (fun j => (eph j).Mk (t - tau j - (eph j).toe)) i))

/-- The correction the script computes from an estimate. -/
noncomputable def correction (eph : Fin 8 → Ephemeris)
    (keplerE : (Fin 8 → ℝ) → (Fin 8 → ℝ) → Fin 8 → ℝ) (t : ℝ) (pr : Fin 8 → ℝ)
    (est : Estimate) : Fin 4 → ℝ :=
  xHat linsolve (H est (satellites eph keplerE t (tau pr est.tbR)) (tau pr est.tbR))
    (pr - h est (satellites eph keplerE t (tau pr est.tbR)))

end

/-! ## Loop -/

/-- The variables of the loop. -/
structure Vars where
  est : Estimate
  xHat : Fin 4 → ℝ

/-- The variables before the loop. -/
noncomputable def start (est : Estimate) : Vars := { est := est, xHat := ![0.6, 0.6, 0.6, 0] }

/-- `while (abs(x_hat(1))>.5 && abs(x_hat(2))>.5 && abs(x_hat(3))>.5)`. -/
def cond (s : Vars) : Prop := |s.xHat 0| > 0.5 ∧ |s.xHat 1| > 0.5 ∧ |s.xHat 2| > 0.5

/-- The estimate after a correction. -/
noncomputable def Estimate.update (est : Estimate) (xHat : Fin 4 → ℝ) : Estimate where
  xRx := { x := est.xRx.x + xHat 0, y := est.xRx.y + xHat 1, z := est.xRx.z + xHat 2 }
  tbR := est.tbR + xHat 3 / c

/-- One iteration, with `corr` computing the correction. -/
noncomputable def body (corr : Estimate → Fin 4 → ℝ) (s : Vars) : Vars where
  est := s.est.update (corr s.est)
  xHat := corr s.est

end GpsReceiver.Positioning
