import JarAtlas.Text.Blank
import JarAtlas.Text.Letters
import Std.Data.HashMap

/-!
Emoji by name: a name between two colons stands for the characters of that name.

In the tables blanks divide the words of a line, and commas divide names of the same characters.
There a `^` in front stands for the first of these names, and a `~` marks people and hands that also
come with a tone of skin.
-/

namespace JarAtlas.Console

/-- Names of characters that follow each other, from the first one on. -/
def emojiRuns : List (Char × List String) := [
  ('↔', [
    "left-right_arrow,left_right_arrow arrow_up_down,up-down_arrow arrow_upper_left,up-left_arrow",
    "arrow_upper_right,up-right_arrow arrow_lower_right,down-right_arrow",
    "arrow_lower_left,down-left_arrow"]),
  ('⏩', [
    "fast-forward_button,fast_forward fast_reverse_button,rewind arrow_double_up,fast_up_button",
    "arrow_double_down,fast_down_button",
    "black_right__pointing_double_triangle_with_vertical_bar,next_track_button",
    "black_left__pointing_double_triangle_with_vertical_bar,last_track_button",
    "black_right__pointing_triangle_with_double_vertical_bar,play_or_pause_button alarm_clock",
    "stopwatch timer_clock hourglass_flowing_sand,hourglass_not_done"]),
  ('◻', [
    "white_medium_square black_medium_square white_medium-small_square,white_medium_small_square",
    "black_medium-small_square,black_medium_small_square"]),
  ('☀', ["sun,^ny cloud umbrella snowman comet"]),
  ('♈', [
    "aries taurus gemini cancer leo virgo libra scorpio,scorpius sagittarius capricorn aquarius",
    "pisces"]),
  ('⚒', ["hammer_and_pick anchor crossed_swords medical_symbol balance_scale,scales alembic"]),
  ('⛰', ["mountain umbrella_on_ground fountain flag_in_hole,golf ferry boat,sailboat"]),
  ('⛷', ["skier ice_skate person_bouncing_ball~,person_with_ball tent"]),
  ('✈', [
    "airplane email,envelope fist,raised_fist~ hand,raised_hand~ v,victory_hand~ writing_hand~"]),
  ('🆑', [
    "cl,cl_button cool,^_button free,^_button id,id_button new,^_button ng,ng_button ok,ok_button",
    "sos,^_button up,up!_button vs,vs_button"]),
  ('🈲', [
    "japanese_prohibited_button,u7981 japanese_vacancy_button,u7a7a",
    "japanese_passing_grade_button,u5408 japanese_no_vacancy_button,u6e80",
    "japanese_not_free_of_charge_button,u6709 japanese_monthly_amount_button,u6708",
    "japanese_application_button,u7533 japanese_discount_button,u5272",
    "japanese_open_for_business_button,u55b6"]),
  ('🌀', [
    "cyclone foggy closed_umbrella night_with_stars sunrise_over_mountains sunrise",
    "city_sunset,cityscape_at_dusk city_sunrise,sunset rainbow bridge_at_night ocean,water_wave",
    "volcano milky_way earth_africa,globe_showing_europe-africa",
    "earth_americas,globe_showing_americas earth_asia,globe_showing_asia-australia",
    "globe_with_meridians new_moon waxing_crescent_moon first_quarter_moon",
    "moon,waxing_gibbous_moon full_moon waning_gibbous_moon last_quarter_moon waning_crescent_moon",
    "crescent_moon new_moon_face,new_moon_with_face",
    "first_quarter_moon_face,first_quarter_moon_with_face",
    "last_quarter_moon_face,last_quarter_moon_with_face full_moon_face,full_moon_with_face",
    "sun_with_face glowing_star,star2 shooting_star,stars thermometer"]),
  ('🌤', [
    "sun_behind_small_cloud,white_sun_with_small_cloud",
    "sun_behind_large_cloud,white_sun_behind_cloud",
    "sun_behind_rain_cloud,white_sun_behind_cloud_with_rain cloud_with_rain cloud_with_snow",
    "cloud_with_lightning cloud_with_tornado,tornado fog wind_blowing_face,wind_face hot_dog taco",
    "burrito chestnut seedling evergreen_tree deciduous_tree palm_tree cactus hot_pepper tulip",
    "cherry_blossom rose hibiscus sunflower blossom corn,ear_of_corn ear_of_rice,sheaf_of_rice",
    "herb four_leaf_clover maple_leaf fallen_leaf leaf_fluttering_in_wind,leaves mushroom tomato",
    "eggplant grapes melon watermelon tangerine lemon banana pineapple apple,red_apple green_apple",
    "pear peach cherries strawberry hamburger pizza meat_on_bone poultry_leg rice_cracker",
    "rice_ball cooked_rice,rice curry,^_rice ramen,steaming_bowl spaghetti bread",
    "french_fries,fries roasted_sweet_potato,sweet_potato dango oden sushi fried_shrimp",
    "fish_cake,^_with_swirl icecream,soft_ice_cream shaved_ice ice_cream doughnut cookie",
    "chocolate_bar candy lollipop custard honey_pot cake,shortcake bento,^_box pot_of_food,stew",
    "cooking,egg fork_and_knife tea,^cup_without_handle sake wine_glass cocktail,^_glass",
    "tropical_drink beer,^_mug beers,clinking_beer_mugs baby_bottle fork_and_knife_with_plate",
    "bottle_with_popping_cork popcorn ribbon gift,wrapped_gift birthday,^_cake",
    "jack-o-lantern,jack_o_lantern christmas_tree santa,^_claus~ fireworks sparkler balloon",
    "party_popper,tada confetti_ball tanabata_tree crossed_flags bamboo,pine_decoration",
    "dolls,japanese_dolls carp_streamer,flags wind_chime moon_viewing_ceremony,rice_scene",
    "school_backpack,school_satchel graduation_cap,mortar_board"]),
  ('🎞', [
    "film_frames admission_tickets carousel_horse ferris_wheel roller_coaster",
    "fishing_pole,^_and_fish microphone movie_camera cinema headphone,^s art,^ist_palette",
    "top_hat,tophat circus_tent ticket clapper,^_board performing_arts video_game dart,direct_hit",
    "slot_machine 8ball,pool_8_ball game_die bowling flower_playing_cards musical_note",
    "musical_notes,notes saxophone guitar musical_keyboard trumpet violin musical_score",
    "running_shirt,^_with_sash tennis ski,^s basketball checkered_flag,chequered_flag snowboarder~",
    "person_running~,runner,running person_surfing~,surfer sports_medal trophy horse_racing~",
    "american_football,football rugby_football person_swimming~,swimmer",
    "person_lifting_weights~,weight_lifter golfer,person_golfing~ motorcycle,racing_motorcycle",
    "racing_car cricket_bat_and_ball,cricket_game volleyball field_hockey,^_stick_and_ball",
    "ice_hockey,^_stick_and_puck ping_pong,table_tennis_paddle_and_ball",
    "snow-capped_mountain,snow_capped_mountain camping beach_with_umbrella building_construction",
    "house_buildings,houses cityscape derelict_house,^_building classical_building desert",
    "desert_island national_park stadium house house_with_garden office,^_building",
    "japanese_post_office,post_office european_post_office hospital bank atm,^_sign hotel",
    "love_hotel convenience_store school department_store factory",
    "izakaya_lantern,lantern,red_paper_lantern japanese_castle castle,european_castle"]),
  ('🏷', [
    "label badminton,^_racquet_and_shuttlecock bow_and_arrow amphora",
    "emoji_modifier_fitzpatrick_type__1__2,light_skin_tone",
    "emoji_modifier_fitzpatrick_type__3,medium_light_skin_tone",
    "emoji_modifier_fitzpatrick_type__4,medium_skin_tone",
    "emoji_modifier_fitzpatrick_type__5,medium_dark_skin_tone",
    "dark_skin_tone,emoji_modifier_fitzpatrick_type__6 rat mouse2 ox water_buffalo cow2 tiger2",
    "leopard rabbit2 cat2 dragon crocodile whale2 snail snake racehorse ram goat ewe,sheep monkey",
    "rooster chicken dog2 pig2 boar elephant octopus shell,spiral_shell bug ant bee,honeybee",
    "beetle,lady_beetle fish tropical_fish blowfish turtle hatching_chick baby_chick",
    "front-facing_baby_chick,hatched_chick bird penguin koala poodle dromedary_camel",
    "camel,two-hump_camel dolphin,flipper mouse,^_face cow,^_face tiger,^_face rabbit,^_face",
    "cat,^_face dragon_face spouting_whale,whale horse,^_face monkey_face dog,^_face pig,^_face",
    "frog,^_face hamster,^_face wolf,^_face bear,^_face panda_face pig_nose feet,paw_prints",
    "chipmunk eyes eye ear~ nose~ lips,mouth tongue backhand_index_pointing_up~,point_up_2",
    "backhand_index_pointing_down~,point_down backhand_index_pointing_left~,point_left",
    "backhand_index_pointing_right~,point_right facepunch,oncoming_fist~,punch wave,waving_hand~",
    "ok_hand~ +1,thumbs_up~,thumbsup -1,__1,thumbs_down~,thumbsdown clap,^ping_hands~ open_hands~",
    "crown womans_hat,woman’s_hat eyeglasses,glasses necktie shirt,t-shirt,tshirt jeans dress",
    "kimono bikini womans_clothes,woman’s_clothes purse handbag clutch_bag,pouch",
    "mans_shoe,man’s_shoe,shoe athletic_shoe,running_shoe high-heeled_shoe,high_heel",
    "sandal,woman’s_sandal boot,woman’s_boot footprints bust_in_silhouette busts_in_silhouette",
    "boy~ girl~ man~ woman~ family couple,man_and_woman_holding_hands two_men_holding_hands",
    "two_women_holding_hands cop,police_officer~ dancers,people_with_bunny_ears bride_with_veil~",
    "blond-haired_person~,person_with_blond_hair man_with_chinese_cap~,man_with_gua_pi_mao",
    "man_with_turban,person_wearing_turban~ old_man~,older_man old_woman~,older_woman baby~",
    "construction_worker~ princess~ japanese_ogre,ogre goblin,japanese_goblin ghost",
    "angel,baby_angel~ alien alien_monster,space_invader angry_face_with_horns,imp skull",
    "information_desk_person,person_tipping_hand~ guard~,^sman dancer,woman_dancing~ lipstick",
    "nail_care,nail_polish~ massage,person_getting_massage~ haircut,person_getting_haircut~",
    "barber,^_pole syringe pill kiss,^_mark love_letter ring gem,^_stone couplekiss bouquet",
    "couple_with_heart wedding beating_heart,heartbeat broken_heart two_hearts sparkling_heart",
    "growing_heart,heartpulse cupid,heart_with_arrow blue_heart green_heart yellow_heart",
    "purple_heart gift_heart,heart_with_ribbon revolving_hearts heart_decoration",
    "diamond_shape_with_a_dot_inside,diamond_with_a_dot bulb,light_bulb anger,^_symbol bomb zzz",
    "boom,collision sweat_droplets,sweat_drops droplet dash,^ing_away hankey,pile_of_poo,poop,shit",
    "flexed_biceps~,muscle dizzy speech_balloon thought_balloon white_flower 100,hundred_points",
    "money_bag,moneybag currency_exchange heavy_dollar_sign credit_card yen,^_banknote",
    "dollar,^_banknote euro,^_banknote pound,^_banknote money_with_wings",
    "chart,^_increasing_with_yen seat computer,laptop_computer briefcase computer_disk,minidisc",
    "floppy_disk cd,optical_disk dvd file_folder open_file_folder page_with_curl page_facing_up",
    "date calendar,tear-off_calendar card_index chart_increasing,chart_with_upwards_trend",
    "chart_decreasing,chart_with_downwards_trend bar_chart clipboard pushpin round_pushpin",
    "paperclip straight_ruler triangular_ruler bookmark_tabs ledger notebook",
    "notebook_with_decorative_cover closed_book book,open_book green_book blue_book orange_book",
    "books name_badge scroll memo,pencil telephone_receiver pager fax,^_machine",
    "satellite,^_antenna loudspeaker mega,^phone outbox_tray inbox_tray package e-mail,e__mail",
    "incoming_envelope envelope_with_arrow closed_mailbox_with_lowered_flag,mailbox_closed",
    "closed_mailbox_with_raised_flag,mailbox mailbox_with_mail,open_mailbox_with_raised_flag",
    "mailbox_with_no_mail,open_mailbox_with_lowered_flag postbox postal_horn newspaper",
    "iphone,mobile_phone calling,mobile_phone_with_arrow vibration_mode mobile_phone_off",
    "no_mobile_phones antenna_bars,signal_strength camera camera_with_flash video_camera",
    "television,tv radio vhs,videocassette film_projector"]),
  ('📿', [
    "prayer_beads shuffle_tracks_button,twisted_rightwards_arrows repeat,^_button",
    "repeat_one,repeat_single_button arrows_clockwise,clockwise_vertical_arrows",
    "arrows_counterclockwise,counterclockwise_arrows_button dim_button,low_brightness",
    "bright_button,high_brightness mute,^d_speaker speaker,^_low_volume",
    "sound,speaker_medium_volume loud_sound,speaker_high_volume battery electric_plug",
    "mag,^nifying_glass_tilted_left mag_right,magnifying_glass_tilted_right",
    "lock_with_ink_pen,locked_with_pen closed_lock_with_key,locked_with_key key lock,^ed",
    "unlock,^ed bell bell_with_slash,no_bell bookmark link radio_button back,^_arrow end,^_arrow",
    "on,on!_arrow soon,^_arrow top,^_arrow no_one_under_eighteen,underage keycap_10,ten",
    "capital_abcd,input_latin_uppercase abcd,input_latin_lowercase 1234,input_numbers",
    "input_symbols,symbols abc,input_latin_letters fire flashlight wrench hammer nut_and_bolt",
    "hocho,kitchen_knife,knife gun,pistol microscope telescope crystal_ball",
    "dotted_six-pointed_star,six_pointed_star beginner,japanese_symbol_for_beginner",
    "trident,^_emblem black_square_button white_square_button red_circle",
    "blue_circle,large_blue_circle large_orange_diamond large_blue_diamond small_orange_diamond",
    "small_blue_diamond red_triangle_pointed_up,small_red_triangle",
    "red_triangle_pointed_down,small_red_triangle_down arrow_up_small,upwards_button",
    "arrow_down_small,downwards_button"]),
  ('🕉', ["om,om_symbol dove,^_of_peace kaaba mosque synagogue menorah,^_with_nine_branches"]),
  ('🕳', [
    "hole man_in_business_suit_levitating,man_in_suit_levitating~ detective~,sleuth_or_spy",
    "dark_sunglasses spider spider_web joystick man_dancing~"]),
  ('🖊', [
    "lower_left_ballpoint_pen,pen fountain_pen,lower_left_fountain_pen",
    "lower_left_paintbrush,paintbrush crayon,lower_left_crayon"]),
  ('🗺', [
    "world_map mount_fuji tokyo_tower statue_of_liberty japan,map_of_japan moai,moyai",
    "grinning,^_face beaming_face_with_smiling_eyes,grin face_with_tears_of_joy,joy",
    "grinning_face_with_big_eyes,smiley grinning_face_with_smiling_eyes,smile",
    "grinning_face_with_sweat,sweat_smile grinning_squinting_face,laughing,satisfied",
    "innocent,smiling_face_with_halo smiling_face_with_horns,smiling_imp wink,^ing_face",
    "blush,smiling_face_with_smiling_eyes face_savoring_food,yum relieved,^_face",
    "heart_eyes,smiling_face_with_heart-eyes smiling_face_with_sunglasses,sunglasses",
    "smirk,^ing_face neutral_face expressionless,^_face unamused,^_face",
    "downcast_face_with_sweat,sweat pensive,^_face confused,^_face confounded,^_face",
    "kissing,^_face face_blowing_a_kiss,kissing_heart",
    "kissing_face_with_smiling_eyes,kissing_smiling_eyes",
    "kissing_closed_eyes,kissing_face_with_closed_eyes face_with_tongue,stuck_out_tongue",
    "stuck_out_tongue_winking_eye,winking_face_with_tongue",
    "squinting_face_with_tongue,stuck_out_tongue_closed_eyes disappointed,^_face worried,^_face",
    "angry,^_face pouting_face,rage cry,^ing_face persevere,persevering_face",
    "face_with_steam_from_nose,triumph disappointed_relieved,sad_but_relieved_face",
    "frowning,^_face_with_open_mouth anguished,^_face fearful,^_face weary,^_face sleepy,^_face",
    "tired_face grimacing,^_face loudly_crying_face,sob face_with_open_mouth,open_mouth",
    "hushed,^_face anxious_face_with_sweat,cold_sweat face_screaming_in_fear,scream",
    "astonished,^_face flushed,^_face sleeping,^_face dizzy_face face_without_mouth,no_mouth",
    "face_with_medical_mask,mask grinning_cat_face_with_smiling_eyes,smile_cat",
    "cat_face_with_tears_of_joy,joy_cat grinning_cat_face,smiley_cat",
    "heart_eyes_cat,smiling_cat_face_with_heart-eyes cat_face_with_wry_smile,smirk_cat",
    "kissing_cat,^_face pouting_cat,^_face crying_cat_face scream_cat,weary_cat_face",
    "slightly_frowning_face slightly_smiling_face upside-down_face,upside__down_face",
    "face_with_rolling_eyes no_good,person_gesturing_no~ ok_woman,person_gesturing_ok~",
    "bow,person_bowing~ see-no-evil_monkey,see_no_evil hear-no-evil_monkey,hear_no_evil",
    "speak-no-evil_monkey,speak_no_evil person_raising_hand~,raising_hand",
    "raised_hands,raising_hands~ person_frowning~ person_pouting~,person_with_pouting_face",
    "folded_hands~,pray"]),
  ('🚀', [
    "rocket helicopter locomotive,steam_locomotive railway_car bullettrain_side,high-speed_train",
    "bullet_train,bullettrain_front train2 metro light_rail station tram train,tram_car bus",
    "oncoming_bus trolleybus bus_stop,busstop minibus ambulance fire_engine police_car",
    "oncoming_police_car taxi oncoming_taxi automobile,car,red_car oncoming_automobile",
    "blue_car,sport_utility_vehicle delivery_truck,truck articulated_lorry tractor monorail",
    "mountain_railway suspension_railway mountain_cableway aerial_tramway ship",
    "person_rowing_boat~,rowboat speedboat horizontal_traffic_light,traffic_light",
    "vertical_traffic_light construction police_car_light,rotating_light triangular_flag,^_on_post",
    "door no_entry_sign,prohibited cigarette,smoking no_smoking",
    "litter_in_bin_sign,put_litter_in_its_place do_not_litter,no_littering potable_water",
    "non-potable_water,non__potable_water bicycle,bike no_bicycles bicyclist,person_biking~",
    "mountain_bicyclist,person_mountain_biking~ person_walking~,walking no_pedestrians",
    "children_crossing mens,men’s_room womens,women’s_room restroom baby_symbol toilet",
    "water_closet,wc shower bath,person_taking_bath~ bathtub passport_control customs",
    "baggage_claim left_luggage"]),
  ('🛋', [
    "couch_and_lamp person_in_bed~,sleeping_accommodation shopping_bags bellhop_bell bed",
    "place_of_worship stop_sign shopping_cart"]),
  ('🛠', ["hammer_and_wrench shield oil_drum motorway railway_track motor_boat"]),
  ('🛳', [
    "passenger_ship kick_scooter motor_scooter canoe sled flying_saucer skateboard auto_rickshaw"]),
  ('🟠', [
    "orange_circle yellow_circle green_circle purple_circle brown_circle red_square blue_square",
    "orange_square yellow_square green_square purple_square brown_square"]),
  ('🤍', [
    "white_heart brown_heart pinching_hand zipper-mouth_face,zipper__mouth_face",
    "money-mouth_face,money__mouth_face face_with_thermometer nerd_face thinking_face",
    "face_with_head-bandage,face_with_head__bandage robot,^_face hugging_face sign_of_the_horns~",
    "call_me_hand~ raised_back_of_hand~ left-facing_fist~ right-facing_fist~ handshake",
    "crossed_fingers~ love-you_gesture~ cowboy_hat_face clown_face nauseated_face",
    "rolling_on_the_floor_laughing drooling_face lying_face person_facepalming~ sneezing_face",
    "face_with_raised_eyebrow star-struck zany_face shushing_face face_with_symbols_on_mouth",
    "face_with_hand_over_mouth face_vomiting exploding_head pregnant_woman~ breast-feeding~",
    "palms_up_together~ selfie~ prince~ man_in_tuxedo~ mrs._claus~ person_shrugging~",
    "person_cartwheeling~ person_juggling~ person_fencing"]),
  ('🤼', [
    "people_wrestling person_playing_water_polo~ person_playing_handball~ diving_mask",
    "wilted_flower drum clinking_glasses tumbler_glass spoon goal_net"]),
  ('🥇', [
    "1st_place_medal 2nd_place_medal 3rd_place_medal boxing_glove martial_arts_uniform",
    "curling_stone lacrosse softball flying_disc croissant avocado cucumber bacon potato carrot",
    "baguette_bread green_salad shallow_pan_of_food stuffed_flatbread"]),
  ('🥛', [
    "glass_of_milk peanuts kiwi_fruit pancakes dumpling fortune_cookie takeout_box chopsticks",
    "bowl_with_spoon cup_with_straw coconut broccoli pie pretzel cut_of_meat sandwich canned_food",
    "leafy_green mango moon_cake bagel smiling_face_with_3_hearts yawning_face"]),
  ('🥳', ["partying_face woozy_face hot_face cold_face"]),
  ('🥺', [
    "pleading_face sari lab_coat goggles hiking_boot flat_shoe crab lion_face scorpion turkey",
    "unicorn_face eagle duck bat shark owl fox_face butterfly deer gorilla lizard rhinoceros",
    "shrimp squid giraffe zebra hedgehog sauropod t-rex cricket kangaroo llama peacock",
    "hippopotamus parrot raccoon lobster mosquito microbe badger swan"]),
  ('🦥', ["sloth otter orangutan skunk flamingo oyster"]),
  ('🦮', [
    "guide_dog probing_cane red_hair curly_hair bald white_hair bone leg foot tooth superhero",
    "supervillain safety_vest ear_with_hearing_aid motorized_wheelchair manual_wheelchair",
    "mechanical_arm mechanical_leg cheese_wedge cupcake salt beverage_box garlic onion falafel",
    "waffle butter mate ice"]),
  ('🧍', [
    "person_standing person_kneeling deaf_person face_with_monocle adult~ child~ older_adult~",
    "bearded_person~ woman_with_headscarf~ person_in_steamy_room~ person_climbing~",
    "person_in_lotus_position~ mage~ fairy~ vampire~ merperson~ elf~ genie zombie brain",
    "orange_heart billed_cap scarf gloves coat socks red_envelope firecracker jigsaw test_tube",
    "petri_dish dna compass abacus fire_extinguisher toolbox brick magnet luggage lotion_bottle",
    "thread yarn safety_pin teddy_bear broom basket roll_of_paper soap sponge receipt nazar_amulet"]),
  ('🩰', ["ballet_shoes one-piece_swimsuit briefs shorts"]),
  ('🪐', ["ringed_planet chair razor axe diya_lamp banjo"])]

def emojiLines : List String := [
  "a,a_button_(blood_type) 🅰 ab,ab_button_(blood_type) 🆎 accept,japanese_acceptable_button 🉑",
  "adhesive_bandage 🩹 airplane_arrival,airplane_arriving 🛬 airplane_departure 🛫",
  "arrow_backward,reverse_button ◀ arrow_down,down_arrow ⬇ arrow_forward,play_button ▶",
  "arrow_heading_down,right_arrow_curving_down ⤵ arrow_heading_up,right_arrow_curving_up ⤴",
  "arrow_left,left_arrow ⬅ arrow_right,right_arrow ➡ arrow_right_hook,left_arrow_curving_right ↪",
  "arrow_up,up_arrow ⬆ atom_symbol ⚛ b,b_button_(blood_type) 🅱 bald_man 👨‍🦲 bald_woman 👩‍🦲",
  "ballot_box_with_ballot 🗳 ballot_box_with_check ☑ bangbang,double_exclamation_mark ‼ baseball ⚾",
  "biohazard,^_sign ☣ black_circle ⚫ black_circle_for_record,record_button ⏺",
  "black_flag,waving_black_flag 🏴 black_heart 🖤 black_joker,joker 🃏 black_large_square ⬛",
  "black_nib ✒ black_small_square ▪ black_square_for_stop,stop_button ⏹ blond-haired_man~ 👱‍♂️",
  "blond-haired_woman~ 👱‍♀️ candle 🕯 card_file_box 🗃 card_index_dividers 🗂 chains ⛓ chess_pawn ♟",
  "church ⛪ circled_m,m Ⓜ clamp,compression 🗜",
  "cloud_with_lightning_and_rain,thunder_cloud_and_rain ⛈ club_suit,clubs ♣",
  "cocos_(keeling)_islands,flag_for_cocos__islands 🇨🇨 coffee,hot_beverage ☕ coffin ⚰",
  "computer_mouse,three_button_mouse 🖱 congo_-_brazzaville,flag_for_congo____brazzaville 🇨🇬",
  "congo_-_kinshasa,flag_for_congo____kinshasa 🇨🇩",
  "congratulations,japanese_congratulations_button ㊗ control_knobs 🎛 copyright ©",
  "couple_with_heart_man_man 👨‍❤️‍👨 couple_with_heart_woman_man 👩‍❤️‍👨",
  "couple_with_heart_woman_woman 👩‍❤️‍👩 cross_mark,x ❌",
  "cross_mark_button,negative_squared_cross_mark ❎ curly-haired_man 👨‍🦱 curly-haired_woman 👩‍🦱",
  "curly_loop ➰ czechia,flag_for_czech_republic 🇨🇿 dagger,^_knife 🗡 desktop_computer 🖥",
  "diamond_suit,diamonds ♦ double_curly_loop,loop ➿ double_vertical_bar,pause_button ⏸",
  "drop_of_blood 🩸 eight,keycap_8 8️⃣ eight-pointed_star,eight_pointed_black_star ✴",
  "eight-spoked_asterisk,eight_spoked_asterisk ✳ eject_button,eject_symbol ⏏ england 🏴󠁧󠁢󠁥󠁮󠁧󠁿",
  "exclamation,^_mark,heavy_exclamation_mark ❗ exclamation_question_mark,interrobang ⁉",
  "eye_in_speech_bubble 👁️‍🗨️ female_sign ♀ file_cabinet 🗄 five,keycap_5 5️⃣",
  "flag_for_guinea__bissau,guinea-bissau 🇬🇼 flag_for_hong_kong,hong_kong_sar_china 🇭🇰",
  "flag_for_japan 🇯🇵 flag_for_macau,macau_sar_china 🇲🇴 flag_for_myanmar,myanmar_(burma) 🇲🇲",
  "flag_for_timor__leste,timor-leste 🇹🇱 flag_for_turkey 🇹🇷 fleur-de-lis,fleur__de__lis ⚜",
  "four,keycap_4 4️⃣ frame_with_picture,framed_picture 🖼 frowning_face,white_frowning_face ☹",
  "fuel_pump,fuelpump ⛽ funeral_urn ⚱ gear ⚙ grey_exclamation,white_exclamation_mark ❕",
  "grey_question,white_question_mark ❔",
  "hand_with_fingers_splayed~,raised_hand_with_fingers_splayed 🖐 heart,red_heart ❤",
  "heart_suit,hearts ♥ heavy_check_mark ✔ heavy_division_sign ➗",
  "heavy_heart_exclamation,^_mark_ornament ❣ heavy_large_circle,o ⭕ heavy_minus_sign ➖",
  "heavy_multiplication_x ✖ heavy_plus_sign ➕ helm_symbol ⎈",
  "helmet_with_white_cross,rescue_worker’s_helmet ⛑ high_voltage,zap ⚡ hindu_temple 🛕",
  "hot_springs,hotsprings ♨ hourglass,^_done ⌛ ideograph_advantage,japanese_bargain_button 🉐",
  "index_pointing_up~,point_up ☝ infinity ♾ information,^_source ℹ",
  "japanese_free_of_charge_button,u7121 🈚 japanese_here_button,koko 🈁",
  "japanese_reserved_button,u6307 🈯 japanese_secret_button,secret ㊙",
  "japanese_service_charge_button,sa 🈂 keyboard ⌨ keycap_# #️⃣ keycap_* *️⃣ keycap_0,zero 0️⃣",
  "keycap_1,one 1️⃣ keycap_2,two 2️⃣ keycap_3,three 3️⃣ keycap_6,six 6️⃣ keycap_7,seven 7️⃣",
  "keycap_9,nine 9️⃣ keycap_asterisk *⃣ keycap_digit_eight 8⃣ keycap_digit_five 5⃣",
  "keycap_digit_four 4⃣ keycap_digit_nine 9⃣ keycap_digit_one 1⃣ keycap_digit_seven 7⃣",
  "keycap_digit_six 6⃣ keycap_digit_three 3⃣ keycap_digit_two 2⃣ keycap_digit_zero 0⃣",
  "keycap_number_sign #⃣ kiss_man_man 👨‍❤️‍💋‍👨 kiss_woman_man 👩‍❤️‍💋‍👨 kiss_woman_woman 👩‍❤️‍💋‍👩",
  "kite 🪁 latin_cross ✝ left_speech_bubble 🗨 leftwards_arrow_with_hook,right_arrow_curving_left ↩",
  "level_slider 🎚 linked_paperclips 🖇 mahjong,^_red_dragon 🀄 male_sign ♂ man_genie 🧞‍♂️",
  "man_in_manual_wheelchair 👨‍🦽 man_in_motorized_wheelchair 👨‍🦼 man_with_probing_cane 👨‍🦯",
  "man_zombie 🧟‍♂️ mantelpiece_clock 🕰 men_with_bunny_ears 👯‍♂️ men_wrestling 🤼‍♂️ mermaid~ 🧜‍♀️",
  "merman~ 🧜‍♂️ middle_finger~,reversed_hand_with_middle_finger_extended 🖕 military_medal 🎖",
  "no_entry ⛔ o2,o_button_(blood_type) 🅾 old_key 🗝 ophiuchus ⛎ orthodox_cross ☦",
  "p_button,parking 🅿 part_alternation_mark 〽 partly_sunny,sun_behind_cloud ⛅ peace_symbol ☮",
  "pencil2 ✏ people_holding_hands 🧑‍🤝‍🧑 phone,telephone ☎ pick ⛏ pirate_flag 🏴‍☠️ printer 🖨",
  "question,^_mark ❓ radioactive,^_sign ☢ rainbow_flag 🏳️‍🌈",
  "raised_hand_with_part_between_middle_and_ring_fingers,vulcan_salute~ 🖖",
  "recycle,recycling_symbol ♻ red-haired_man 👨‍🦰 red-haired_woman 👩‍🦰 registered ®",
  "relaxed,smiling_face ☺ reminder_ribbon 🎗 right_anger_bubble 🗯",
  "rolled-up_newspaper,rolled__up_newspaper 🗞 rosette 🏵 scissors ✂ scotland 🏴󠁧󠁢󠁳󠁣󠁴󠁿",
  "service_dog 🐕‍🦺 shamrock ☘ shinto_shrine ⛩ skull_and_crossbones ☠ small_airplane 🛩 snowflake ❄",
  "snowman_without_snow ⛄ soccer,^_ball ⚽ spade_suit,spades ♠ sparkle ❇ sparkles ✨",
  "speaking_head,^_in_silhouette 🗣 spiral_calendar,^_pad 🗓 spiral_note_pad,spiral_notepad 🗒",
  "star,white_medium_star ⭐ star_and_crescent ☪ star_of_david ✡ stethoscope 🩺 studio_microphone 🎙",
  "tm,trade_mark ™ trackball 🖲 umbrella_with_rain_drops ☔ united_nations 🇺🇳 wales 🏴󠁧󠁢󠁷󠁬󠁳󠁿",
  "warning ⚠ wastebasket 🗑 watch ⌚ waving_white_flag,white_flag 🏳 wavy_dash 〰 wheel_of_dharma ☸",
  "wheelchair,^_symbol ♿ white-haired_man 👨‍🦳 white-haired_woman 👩‍🦳",
  "white_check_mark,white_heavy_check_mark ✅ white_circle ⚪ white_large_square ⬜",
  "white_small_square ▫ woman_genie 🧞‍♀️ woman_in_manual_wheelchair 👩‍🦽",
  "woman_in_motorized_wheelchair 👩‍🦼 woman_with_probing_cane 👩‍🦯 woman_zombie 🧟‍♀️",
  "women_with_bunny_ears 👯‍♀️ women_wrestling 🤼‍♀️ yin_yang ☯ yo-yo 🪀"]

def deedLines : List String := [
  "biking 🚴 bouncing_ball ⛹️ bowing 🙇 cartwheeling 🤸 climbing 🧗 construction_worker 👷 detective 🕵️",
  "elf 🧝 facepalming 🤦 fairy 🧚 frowning 🙍 gesturing_no 🙅 gesturing_ok 🙆 getting_haircut 💇",
  "getting_massage 💆 golfing 🏌️ guard 💂 in_lotus_position 🧘 in_steamy_room 🧖 juggling 🤹",
  "lifting_weights 🏋️ mage 🧙 mountain_biking 🚵 playing_handball 🤾 playing_water_polo 🤽",
  "police_officer 👮 pouting 🙎 raising_hand 🙋 rowing_boat 🚣 running 🏃 shrugging 🤷 surfing 🏄",
  "swimming 🏊 tipping_hand 💁 vampire 🧛 walking 🚶 wearing_turban 👳"]

def workLines : List String := [
  "artist 🎨 astronaut 🚀 cook 🍳 factory_worker 🏭 farmer 🌾 firefighter 🚒 health_worker ⚕️ judge ⚖️",
  "mechanic 🔧 office_worker 💼 pilot ✈️ scientist 🔬 singer 🎤 student 🎓 teacher 🏫 technologist 💻"]

def flagLines : List String := [
  "afghanistan af albania al algeria dz american_samoa as andorra ad angola ao anguilla ai",
  "antarctica aq antigua_&_barbuda ag argentina ar armenia am aruba aw ascension_island ac",
  "australia au austria at azerbaijan az bahamas bs bahrain bh bangladesh bd barbados bb",
  "belarus by belgium be belize bz benin bj bermuda bm bhutan bt bolivia bo",
  "bosnia_&_herzegovina ba botswana bw bouvet_island bv brazil br",
  "british_indian_ocean_territory io british_virgin_islands vg brunei bn bulgaria bg",
  "burkina_faso bf burundi bi cambodia kh cameroon cm canada ca canary_islands ic cape_verde cv",
  "caribbean_netherlands bq cayman_islands ky central_african_republic cf ceuta_&_melilla ea",
  "chad td chile cl china cn christmas_island cx clipperton_island cp colombia co comoros km",
  "cook_islands ck costa_rica cr croatia hr cuba cu curaçao cw cyprus cy côte_d’ivoire ci",
  "denmark dk diego_garcia dg djibouti dj dominica dm dominican_republic do ecuador ec egypt eg",
  "el_salvador sv equatorial_guinea gq eritrea er estonia ee ethiopia et european_union eu",
  "falkland_islands fk faroe_islands fo fiji fj finland fi france fr french_guiana gf",
  "french_polynesia pf french_southern_territories tf gabon ga gambia gm georgia ge germany de",
  "ghana gh gibraltar gi greece gr greenland gl grenada gd guadeloupe gp guam gu guatemala gt",
  "guernsey gg guinea gn guyana gy haiti ht heard_&_mcdonald_islands hm honduras hn hungary hu",
  "iceland is india in indonesia id iran ir iraq iq ireland ie isle_of_man im israel il",
  "italy it jamaica jm jersey je jordan jo kazakhstan kz kenya ke kiribati ki kosovo xk",
  "kuwait kw kyrgyzstan kg laos la latvia lv lebanon lb lesotho ls liberia lr libya ly",
  "liechtenstein li lithuania lt luxembourg lu macedonia mk madagascar mg malawi mw malaysia my",
  "maldives mv mali ml malta mt marshall_islands mh martinique mq mauritania mr mauritius mu",
  "mayotte yt mexico mx micronesia fm moldova md monaco mc mongolia mn montenegro me",
  "montserrat ms morocco ma mozambique mz namibia na nauru nr nepal np netherlands nl",
  "new_caledonia nc new_zealand nz nicaragua ni niger ne nigeria ng niue nu norfolk_island nf",
  "north_korea kp northern_mariana_islands mp norway no oman om pakistan pk palau pw",
  "palestinian_territories ps panama pa papua_new_guinea pg paraguay py peru pe philippines ph",
  "pitcairn_islands pn poland pl portugal pt puerto_rico pr qatar qa romania ro russia ru",
  "rwanda rw réunion re samoa ws san_marino sm saudi_arabia sa senegal sn serbia rs",
  "seychelles sc sierra_leone sl singapore sg sint_maarten sx slovakia sk slovenia si",
  "solomon_islands sb somalia so south_africa za south_georgia_&_south_sandwich_islands gs",
  "south_korea kr south_sudan ss spain es sri_lanka lk st._barthélemy bl st._helena sh",
  "st._kitts_&_nevis kn st._lucia lc st._martin mf st._pierre_&_miquelon pm",
  "st._vincent_&_grenadines vc sudan sd suriname sr svalbard_&_jan_mayen sj swaziland sz",
  "sweden se switzerland ch syria sy são_tomé_&_príncipe st taiwan tw tajikistan tj tanzania tz",
  "thailand th togo tg tokelau tk tonga to trinidad_&_tobago tt tristan_da_cunha ta tunisia tn",
  "turkmenistan tm turks_&_caicos_islands tc tuvalu tv u.s._outlying_islands um",
  "u.s._virgin_islands vi uganda ug ukraine ua united_arab_emirates ae united_kingdom gb",
  "united_states us uruguay uy uzbekistan uz vanuatu vu vatican_city va venezuela ve vietnam vn",
  "wallis_&_futuna wf western_sahara eh yemen ye zambia zm zimbabwe zw åland_islands ax"]

namespace Emoji

def pairs : List String → List (String × String)
  | a :: b :: rest => (a, b) :: pairs rest
  | _ => []

def wordsOf (lines : List String) : List String :=
  lines.flatMap fun line => Text.split line ' '

def joined (parts : List String) : String :=
  (String.singleton (Char.ofNat 0x200d)).intercalate parts

/-- Men and women: a sign for them is joined to the character of a deed, and the tool of their work
to them. -/
def people : List (String × String) :=
  ((pairs (wordsOf deedLines)).flatMap fun (deed, s) =>
    [("man_" ++ deed, joined [s, "♂️"]), ("woman_" ++ deed, joined [s, "♀️"])]) ++
  (pairs (wordsOf workLines)).flatMap fun (work, tool) =>
    [("man_" ++ work, joined ["👨", tool]), ("woman_" ++ work, joined ["👩", tool])]

def parents : List (List (String × String)) :=
  let man := ("man", "👨")
  let woman := ("woman", "👩")
  [[man], [woman], [man, man], [man, woman], [woman, woman]]

def children : List (List (String × String)) :=
  let boy := ("boy", "👦")
  let girl := ("girl", "👧")
  [[boy], [boy, boy], [girl], [girl, boy], [girl, girl]]

def families : List (String × String) :=
  parents.flatMap fun ps => children.map fun cs =>
    ("_".intercalate ("family" :: (ps ++ cs).map (·.1)), joined ((ps ++ cs).map (·.2)))

def runs : List (String × String) :=
  emojiRuns.flatMap fun (first, lines) => (wordsOf lines).zipIdx.map fun (names, i) =>
    (names, String.singleton (Char.ofNat (first.toNat + i)))

def clocks : List (String × String) :=
  let face (i : Nat) := String.singleton (Char.ofNat ('🕐'.toNat + i))
  (wordsOf ["one two three four five six seven eight nine ten eleven twelve"]).zipIdx.flatMap
    fun (hour, i) =>
      let clock := "clock" ++ toString (i + 1)
      [(clock, face i), (hour ++ "_o’clock", face i), (clock ++ "30", face (i + 12)),
        (hour ++ "-thirty", face (i + 12))]

def unmarked (name : String) : String :=
  Text.replace name "~" ""

def names (group : String) : List String :=
  let names := Text.split group ','
  names.map fun name => Text.replace name "^" (unmarked (names.headD ""))

def marked : List (String × String) :=
  (runs ++ pairs (wordsOf emojiLines)).flatMap fun (group, s) => (names group).map (·, s)

/-- The characters of each name, tones of skin and most flags apart. -/
def plain : Std.HashMap String String :=
  Std.HashMap.ofList
    ((marked.map fun (name, s) => (unmarked name, s)) ++ clocks ++ people ++ families)

/-- The endings of names with a tone of skin, each with the character for it. -/
def tones : List (String × Char) :=
  [("_light_skin_tone", Char.ofNat 0x1f3fb), ("_medium-light_skin_tone", Char.ofNat 0x1f3fc),
    ("_medium_skin_tone", Char.ofNat 0x1f3fd), ("_medium-dark_skin_tone", Char.ofNat 0x1f3fe),
    ("_dark_skin_tone", Char.ofNat 0x1f3ff)]

/-- Characters with a tone of skin. It comes after the first one, in the place of a character that
asks for a way of drawing. -/
def withTone (tone : Char) (s : String) : String :=
  match s.toList with
  | [] => s
  | c :: cs => String.ofList (c :: tone :: cs.dropWhile (· == Char.ofNat 0xfe0f))

def flag (letters : String) : String :=
  String.ofList (letters.toList.map fun c => Char.ofNat (0x1f1e6 + (c.toNat - 'a'.toNat)))

def toned : List (String × String) :=
  let names := (marked.map (·.1)).filter (Text.endsWith · "~")
  (names.map unmarked ++ people.map (·.1)).flatMap fun name => tones.map fun (ending, tone) =>
    (name ++ ending, withTone tone (plain.getD name ""))

def letters : List (String × String) :=
  "abcdefghijklmnopqrstuvwxyz".toList.flatMap fun c =>
    ["", "symbol_letter_"].map fun kind =>
      ("regional_indicator_" ++ kind ++ String.singleton c, flag (String.singleton c))

def flags : List (String × String) :=
  (pairs (wordsOf flagLines)).flatMap fun (name, letters) =>
    [(name, flag letters), ("flag_for_" ++ name, flag letters)]

def table : Std.HashMap String String :=
  ((plain.insertMany toned).insertMany letters).insertMany flags

def variants : List (List Char × Char) :=
  [("-emoji".toList, Char.ofNat 0xfe0f), ("-text".toList, Char.ofNat 0xfe0e)]

/-- A name cut before the ending that asks for a way of drawing, and the character for it. -/
def cutVariant (name : List Char) : List Char × List Char :=
  match variants.find? fun v => v.1.reverse.isPrefixOf name.reverse with
  | some (ending, c) => (name.take (name.length - ending.length), [c])
  | none => (name, [])

def named? (name : List Char) : Option (List Char) :=
  let (name, variant) := cutVariant name
  (table[String.ofList (Text.lowerChars name)]?).map fun s => s.toList ++ variant

def nameAfter? (cs : List Char) : Option (List Char) :=
  match cs.span fun c => c != ':' && !Text.isBlank c with
  | (name, ':' :: _) => some name
  | _ => none

/-- The text with names replaced. A name that is not known stays, with both its colons. -/
def replace (cs : List Char) : List Char :=
  go 0 [] cs
where
  go (skip : Nat) (done : List Char) : List Char → List Char
    | [] => done.reverse
    | c :: cs =>
      if skip != 0 then go (skip - 1) done cs
      else
        match if c == ':' then nameAfter? cs else none with
        | none => go 0 (c :: done) cs
        | some name =>
          let shown := (named? name).getD (':' :: name ++ [':'])
          go (name.length + 1) (shown.reverseAux done) cs

end Emoji

end JarAtlas.Console
