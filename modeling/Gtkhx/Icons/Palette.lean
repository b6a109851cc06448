import Mathlib.Algebra.Group.Nat.Defs

/-!
# Palettes of colour icons

The colours that pixels of one, two, four and eight bits stand for where an icon has no others. Each
channel has 16 bits, of which the high byte is used.
-/

namespace Gtkhx.Icons

/-- Red, green and blue, of 16 bits each. -/
abbrev Channels : Type := ℕ × ℕ × ℕ

/-- The 256 colours of eight bits. -/
def RGB_8 : List Channels := [
  (0xff00, 0xff00, 0xff00), (0xff00, 0xfe00, 0xcb00), (0xff00, 0xfe00, 0x9a00),
  (0xff00, 0xfe00, 0x6600), (0xff00, 0xfe00, 0x3300), (0xfe00, 0xfe00, 0x0000),
  (0xff00, 0xcb00, 0xfe00), (0xff00, 0xcb00, 0xcb00), (0xff00, 0xcc00, 0x9a00),
  (0xff00, 0xcc00, 0x6600), (0xff00, 0xcc00, 0x3300), (0xfe00, 0xcb00, 0x0000),
  (0xff00, 0x9a00, 0xfe00), (0xff00, 0x9a00, 0xcc00), (0xff00, 0x9a00, 0x9a00),
  (0xff00, 0x9900, 0x6600), (0xff00, 0x9900, 0x3300), (0xfe00, 0x9800, 0x0000),
  (0xff00, 0x6600, 0xfe00), (0xff00, 0x6600, 0xcc00), (0xff00, 0x6600, 0x9900),
  (0xff00, 0x6600, 0x6600), (0xff00, 0x6600, 0x3300), (0xfe00, 0x6500, 0x0000),
  (0xff00, 0x3300, 0xfe00), (0xff00, 0x3300, 0xcc00), (0xff00, 0x3300, 0x9900),
  (0xff00, 0x3300, 0x6600), (0xff00, 0x3300, 0x3300), (0xfe00, 0x3200, 0x0000),
  (0xfe00, 0x0000, 0xfe00), (0xfe00, 0x0000, 0xcb00), (0xfe00, 0x0000, 0x9800),
  (0xfe00, 0x0000, 0x6500), (0xfe00, 0x0000, 0x3200), (0xfe00, 0x0000, 0x0000),
  (0xcb00, 0xff00, 0xff00), (0xcb00, 0xff00, 0xcb00), (0xcc00, 0xff00, 0x9a00),
  (0xcc00, 0xff00, 0x6600), (0xcc00, 0xff00, 0x3300), (0xcb00, 0xfe00, 0x0000),
  (0xcb00, 0xcb00, 0xff00), (0xcc00, 0xcc00, 0xcc00), (0xcc00, 0xcc00, 0x9900),
  (0xcc00, 0xcc00, 0x6600), (0xcb00, 0xcb00, 0x3200), (0xcd00, 0xcd00, 0x0000),
  (0xcc00, 0x9a00, 0xff00), (0xcc00, 0x9900, 0xcc00), (0xcc00, 0x9900, 0x9900),
  (0xcc00, 0x9900, 0x6600), (0xcb00, 0x9800, 0x3200), (0xcd00, 0x9a00, 0x0000),
  (0xcc00, 0x6600, 0xff00), (0xcc00, 0x6600, 0xcc00), (0xcc00, 0x6600, 0x9900),
  (0xcc00, 0x6600, 0x6600), (0xcb00, 0x6500, 0x3200), (0xcd00, 0x6600, 0x0000),
  (0xcc00, 0x3300, 0xff00), (0xcb00, 0x3200, 0xcb00), (0xcb00, 0x3200, 0x9800),
  (0xcb00, 0x3200, 0x6500), (0xcb00, 0x3200, 0x3200), (0xcd00, 0x3300, 0x0000),
  (0xcb00, 0x0000, 0xfe00), (0xcd00, 0x0000, 0xcd00), (0xcd00, 0x0000, 0x9a00),
  (0xcd00, 0x0000, 0x6600), (0xcd00, 0x0000, 0x3300), (0xcd00, 0x0000, 0x0000),
  (0x9a00, 0xff00, 0xff00), (0x9a00, 0xff00, 0xcc00), (0x9a00, 0xff00, 0x9a00),
  (0x9900, 0xff00, 0x6600), (0x9900, 0xff00, 0x3300), (0x9900, 0xfe00, 0x0000),
  (0x9a00, 0xcc00, 0xff00), (0x9900, 0xcc00, 0xcc00), (0x0000, 0x9800, 0x6500),
  (0x9900, 0xcc00, 0x6600), (0x9900, 0xcb00, 0x3200), (0x9a00, 0xcd00, 0x0000),
  (0x9a00, 0x9a00, 0xff00), (0x9900, 0x9900, 0xcc00), (0x9900, 0x9900, 0x9900),
  (0x9800, 0x9800, 0x6500), (0x9a00, 0x9a00, 0x3300), (0x9800, 0x9800, 0x0000),
  (0x9900, 0x6600, 0xff00), (0x9900, 0x6600, 0xcc00), (0x9800, 0x6500, 0x9800),
  (0x9800, 0x6500, 0x6500), (0x9a00, 0x6600, 0x3300), (0x9800, 0x6500, 0x0000),
  (0x9900, 0x3300, 0xff00), (0x9800, 0x3200, 0xcb00), (0x9a00, 0x3300, 0x9a00),
  (0x9a00, 0x3300, 0x6600), (0x9a00, 0x3300, 0x3300), (0x9800, 0x3200, 0x0000),
  (0x9800, 0x0000, 0xfe00), (0x9a00, 0x0000, 0xcd00), (0x9800, 0x0000, 0x9800),
  (0x9800, 0x0000, 0x6500), (0x9800, 0x0000, 0x3200), (0x9800, 0x0000, 0x0000),
  (0x6600, 0xff00, 0xff00), (0x6600, 0xff00, 0xcc00), (0x6600, 0xff00, 0x9900),
  (0x6600, 0xff00, 0x6600), (0x6600, 0xff00, 0x3300), (0x6600, 0xfe00, 0x0000),
  (0x6600, 0xcc00, 0xff00), (0x6600, 0xcc00, 0xcc00), (0x6600, 0xcc00, 0x9900),
  (0x6600, 0xcc00, 0x6600), (0x6600, 0xcb00, 0x3200), (0x6600, 0xcd00, 0x0000),
  (0x6600, 0x9900, 0xff00), (0x6600, 0x9900, 0xcc00), (0x6500, 0x9800, 0x9800),
  (0x6500, 0x9800, 0x6500), (0x6600, 0x9a00, 0x3300), (0x6500, 0x9800, 0x0000),
  (0x6600, 0x6600, 0xff00), (0x6600, 0x6600, 0xcc00), (0x6500, 0x6500, 0x9800),
  (0x6600, 0x6600, 0x6600), (0x6500, 0x6500, 0x3200), (0x6600, 0x6600, 0x0000),
  (0x6600, 0x3300, 0xff00), (0x6500, 0x3200, 0xcb00), (0x6600, 0x3300, 0x9a00),
  (0x6500, 0x3200, 0x6500), (0x6500, 0x3200, 0x3200), (0x6600, 0x3300, 0x0000),
  (0x6500, 0x0000, 0xfe00), (0x6600, 0x0000, 0xcd00), (0x6500, 0x0000, 0x9800),
  (0x6600, 0x0000, 0x6600), (0x6600, 0x0000, 0x3300), (0x6600, 0x0000, 0x0000),
  (0x3300, 0xff00, 0xff00), (0x3300, 0xff00, 0xcc00), (0x3300, 0xff00, 0x9900),
  (0x3300, 0xff00, 0x6600), (0x3300, 0xff00, 0x3300), (0x3300, 0xfe00, 0x0000),
  (0x3300, 0xcc00, 0xff00), (0x3200, 0xcb00, 0xcb00), (0x3200, 0xcb00, 0x9800),
  (0x3200, 0xcb00, 0x6500), (0x3300, 0xcb00, 0x3200), (0x3300, 0xcd00, 0x0000),
  (0x3300, 0x9900, 0xff00), (0x3200, 0x9900, 0xcb00), (0x3300, 0x9a00, 0x9a00),
  (0x3300, 0x9a00, 0x6600), (0x3300, 0x9a00, 0x3300), (0x3200, 0x9800, 0x0000),
  (0x3300, 0x6600, 0xff00), (0x3200, 0x6600, 0xcb00), (0x3300, 0x6600, 0x9a00),
  (0x3200, 0x6500, 0x6500), (0x3200, 0x6500, 0x3200), (0x3300, 0x6600, 0x0000),
  (0x3300, 0x3300, 0xff00), (0x3200, 0x3300, 0xcb00), (0x3300, 0x3300, 0x9a00),
  (0x3200, 0x3200, 0x6500), (0x3300, 0x3300, 0x3300), (0x3300, 0x3300, 0x0000),
  (0x3200, 0x0000, 0xfe00), (0x3300, 0x0000, 0xcd00), (0x3200, 0x0000, 0x9800),
  (0x3300, 0x0000, 0x6600), (0x3300, 0x0000, 0x3300), (0x3300, 0x0000, 0x0000),
  (0x0000, 0xfe00, 0xfe00), (0x0000, 0xfe00, 0xcb00), (0x0000, 0xfe00, 0x9800),
  (0x0000, 0xfe00, 0x6500), (0x0000, 0xfe00, 0x3200), (0x0000, 0xfe00, 0x0000),
  (0x0000, 0xcb00, 0xfe00), (0x0000, 0xcd00, 0xcd00), (0x0000, 0xcd00, 0x9a00),
  (0x0000, 0xcd00, 0x6600), (0x0000, 0xcd00, 0x3300), (0x0000, 0xcd00, 0x0000),
  (0x0000, 0x9800, 0xfe00), (0x0000, 0x9a00, 0xcd00), (0x0000, 0x9800, 0x9800),
  (0x0000, 0x9800, 0x6500), (0x0000, 0x9800, 0x3200), (0x0000, 0x9800, 0x0000),
  (0x0000, 0x6600, 0xfe00), (0x0000, 0x6600, 0xcd00), (0x0000, 0x6500, 0x9800),
  (0x0000, 0x6600, 0x6600), (0x0000, 0x6600, 0x3300), (0x0000, 0x6600, 0x0000),
  (0x0000, 0x3300, 0xfe00), (0x0000, 0x3300, 0xcd00), (0x0000, 0x3200, 0x9800),
  (0x0000, 0x3300, 0x6600), (0x0000, 0x3300, 0x3300), (0x0000, 0x3300, 0x0000),
  (0x0000, 0x0000, 0xfe00), (0x0000, 0x0000, 0xcd00), (0x0000, 0x0000, 0x9800),
  (0x0000, 0x0000, 0x6600), (0x0000, 0x0000, 0x3300), (0xef00, 0x0000, 0x0000),
  (0xdc00, 0x0000, 0x0000), (0xba00, 0x0000, 0x0000), (0xab00, 0x0000, 0x0000),
  (0x8900, 0x0000, 0x0000), (0x7700, 0x0000, 0x0000), (0x5500, 0x0000, 0x0000),
  (0x4400, 0x0000, 0x0000), (0x2200, 0x0000, 0x0000), (0x1100, 0x0000, 0x0000),
  (0x0000, 0xef00, 0x0000), (0x0000, 0xdc00, 0x0000), (0x0000, 0xba00, 0x0000),
  (0x0000, 0xab00, 0x0000), (0x0000, 0x8900, 0x0000), (0x0000, 0x7700, 0x0000),
  (0x0000, 0x5500, 0x0000), (0x0000, 0x4400, 0x0000), (0x0000, 0x2200, 0x0000),
  (0x0000, 0x1100, 0x0000), (0x0000, 0x0000, 0xef00), (0x0000, 0x0000, 0xdc00),
  (0x0000, 0x0000, 0xba00), (0x0000, 0x0000, 0xab00), (0x0000, 0x0000, 0x8900),
  (0x0000, 0x0000, 0x7700), (0x0000, 0x0000, 0x5500), (0x0000, 0x0000, 0x4400),
  (0x0000, 0x0000, 0x2200), (0x0000, 0x0000, 0x1100), (0xee00, 0xee00, 0xee00),
  (0xdd00, 0xdd00, 0xdd00), (0xbb00, 0xbb00, 0xbb00), (0xaa00, 0xaa00, 0xaa00),
  (0x8800, 0x8800, 0x8800), (0x7700, 0x7700, 0x7700), (0x5500, 0x5500, 0x5500),
  (0x4400, 0x4400, 0x4400), (0x2200, 0x2200, 0x2200), (0x1100, 0x1100, 0x1100),
  (0x0000, 0x0000, 0x0000)]

/-- The 16 colours of four bits. -/
def RGB_4 : List Channels := [
  (0xffff, 0xffff, 0xffff), (0xffff, 0xffff, 0x0000), (0xffff, 0xa0a0, 0x7a7a),
  (0xffff, 0x0000, 0x0000), (0xffff, 0x1414, 0x9393), (0x8a8a, 0x2b2b, 0xe2e2),
  (0x0000, 0x0000, 0x8080), (0x6464, 0x9595, 0xeded), (0x2222, 0x8b8b, 0x2222),
  (0x0000, 0x6464, 0x0000), (0x8b8b, 0x4545, 0x1313), (0xd2d2, 0xb4b4, 0x8c8c),
  (0xd3d3, 0xd3d3, 0xd3d3), (0xbebe, 0xbebe, 0xbebe), (0x6969, 0x6969, 0x6969),
  (0x0000, 0x0000, 0x0000)]

/-- The four colours of two bits. -/
def RGB_2 : List Channels := [
  (0xffff, 0xffff, 0xffff), (0xffff, 0xffff, 0x0000), (0x0000, 0xffff, 0xffff),
  (0x0000, 0x0000, 0x0000)]

/-- White and black. -/
def RGB_1 : List Channels := [
  (0xffff, 0xffff, 0xffff), (0x0000, 0x0000, 0x0000)]

end Gtkhx.Icons
